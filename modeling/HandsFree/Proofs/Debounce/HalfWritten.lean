import HandsFree.Proofs.CallTable.Joining
import HandsFree.Proofs.Debounce

/-! Links of which one end is written. Whether a call joins a conference that shows its legs or leaves it,
    and whichever end comes first, the two ends disagree in between, and no update goes out that nobody
    asked for. Once both ends of joining are written, in either order, the headset is told. -/

namespace HandsFree

namespace CallTable
variable {t u : CallTable} {p c : Call}

/-- Half of joining or leaving the conference `p`, which shows its legs. It is a conference already, so
    `addChild` does no more than list the call. -/
inductive HalfWritten (t : CallTable) (p c : Call) : CallTable → Prop
  | parentSet (h : c.parent = none) : HalfWritten t p c (t.setParent c.id (some p.id))
  | childListed (h : c.parent = none) : HalfWritten t p c (t.addChild p.id c.id)
  | parentCleared (h : c.parent = some p.id) : HalfWritten t p c (t.setParent c.id none)
  | childDropped (h : c.parent = some p.id) : HalfWritten t p c (t.dropChild p.id c.id)

/-- Both halves of joining, in one order or the other. -/
inductive Joined (t : CallTable) (p c : Call) : CallTable → Prop
  | parentFirst : Joined t p c ((t.setParent c.id (some p.id)).addChild p.id c.id)
  | childFirst : Joined t p c ((t.addChild p.id c.id).setParent c.id (some p.id))

theorem HalfWritten.uniqueIds (hu : t.UniqueIds) (h : t.HalfWritten p c u) : u.UniqueIds := by
  cases h with
  | parentSet => rwa [UniqueIds, ids_setParent]
  | childListed => rwa [UniqueIds, ids_addChild]
  | parentCleared => rwa [UniqueIds, ids_setParent]
  | childDropped => rwa [UniqueIds, ids_dropChild]

theorem HalfWritten.not_isSettled (hu : t.UniqueIds) (hs : t.isSettled = true) (hp : p ∈ t.calls)
    (he : p.exposesChildren = true) (hc : c ∈ t.calls) (h : t.HalfWritten p c u) : ¬u.isSettled = true := by
  have hgp := hu.get?_of_mem hp
  have hgc := hu.get?_of_mem hc
  have hexposes : t.links.exposes p.id := (exposes_links hgp).mpr he
  have hlisted : t.links.lists p.id c.id ↔ c.parent = some p.id := by
    rw [((isSettled_iff_agree hu).mp hs).listed p.id hexposes, parent_links hgc]
  rw [isSettled_iff_agree (h.uniqueIds hu)]
  intro hagree
  -- No half changes who is a conference, so the ends would have to agree at `p`.
  cases h with
  | parentSet hnone =>
    rw [links_setParent hgc] at hagree
    have hset : (t.links.setParent c.id (some p.id)).parent c.id = some p.id := Function.update_self ..
    have hparent := hlisted.mp ((hagree.listed p.id hexposes c.id).mpr hset)
    rw [hnone] at hparent
    cases hparent
  | childListed hnone =>
    have hshown : (t.links.addChild p.id c.id).exposes p.id := hexposes
    rw [links_addChild hgp, Links.expose_of_exposes hshown] at hagree
    have hparent := (hagree.listed p.id hexposes c.id).mp (Or.inr ⟨rfl, rfl⟩)
    change t.links.parent c.id = _ at hparent
    rw [parent_links hgc, hnone] at hparent
    cases hparent
  | parentCleared hparent =>
    rw [links_setParent hgc] at hagree
    have hcleared := (hagree.listed p.id hexposes c.id).mp (hlisted.mpr hparent)
    exact (Links.parent_setParent_none_iff.mp hcleared).1 rfl
  | childDropped hparent =>
    rw [links_dropChild hgp] at hagree
    have hlists := (hagree.listed p.id hexposes c.id).mpr ((parent_links hgc).trans hparent)
    exact hlists.2 ⟨rfl, rfl⟩

theorem Joined.uniqueIds (hu : t.UniqueIds) (h : t.Joined p c u) : u.UniqueIds := by
  cases h with
  | parentFirst => rwa [UniqueIds, ids_addChild, ids_setParent]
  | childFirst => rwa [UniqueIds, ids_setParent, ids_addChild]

theorem Joined.links (hp : t.get? p.id = some p) (hc : t.get? c.id = some c) (h : t.Joined p c u) :
    u.links = t.links.join p.id c.id (p.can .noChildren = false) := by
  cases h with
  | parentFirst => exact links_join hp hc
  | childFirst =>
    have hfound : ∃ d, (t.addChild p.id c.id).get? c.id = some d := by
      rw [addChild, get?_modify (by exact fun _ => rfl), hc]
      split <;> exact ⟨_, rfl⟩
    obtain ⟨d, hd⟩ := hfound
    rw [links_setParent hd, links_addChild hp]
    rfl

theorem Joined.isSettled (hu : t.UniqueIds) (hs : t.isSettled = true) (hp : p ∈ t.calls)
    (he : p.exposesChildren = true) (hc : c ∈ t.calls) (hnone : c.parent = none) (h : t.Joined p c u) :
    u.isSettled = true := by
  have hgp := hu.get?_of_mem hp
  have hgc := hu.get?_of_mem hc
  have hshown : p.can .noChildren = false := by
    rw [Call.exposesChildren, Bool.and_eq_true, Bool.not_eq_true'] at he
    exact he.2
  rw [isSettled_iff_agree (h.uniqueIds hu), h.links hgp hgc]
  exact ((isSettled_iff_agree hu).mp hs).join (Or.inl ((parent_links hgc).trans hnone)) hshown
    (Or.inl ((exposes_links hgp).mpr he))

end CallTable

namespace Debounce
open CallTable
variable {t : CallTable} {p c : Call}

/-- Nothing is told of a link while one of its ends is written, and nothing is remembered. After both ends
    of joining are written, the memory has the phone state of the calls, told now or before. -/
theorem half_written_not_told (hu : t.UniqueIds) (hs : t.isSettled = true) (hp : p ∈ t.calls)
    (he : p.exposesChildren = true) (hc : c ∈ t.calls) (m : Debounce) :
    (∀ u, t.HalfWritten p c u → m.update u false = (none, m)) ∧
    (c.parent = none → ∀ u, t.Joined p c u → u.isSettled = true ∧
      (u.heldCount ≠ 2 → (m.update u false).2.last = some (PhoneState.ofCalls u))) := by
  constructor
  · intro u h
    refine update_of_not_accepts fun haccepts => ?_
    obtain ⟨-, hsettled, -⟩ := (accepts_iff m).mp haccepts
    exact h.not_isSettled hu hs hp he hc hsettled
  · intro hnone u h
    have hsettled : u.isSettled = true := h.isSettled hu hs hp he hc hnone
    exact ⟨hsettled, fun hheld => last_update m ⟨hheld, hsettled⟩⟩

/-- A ringing call joins a conference of two, and a leg leaves it. The memory is new, so that anything would
    be news to it. -/
theorem half_written_not_told_linkedCalls :
    let m : Debounce := {}
    linkedCalls.UniqueIds ∧ linkedCalls.isSettled = true ∧
    m.update (linkedCalls.setParent ⟨6⟩ (some ⟨1⟩)) false = (none, m) ∧
    m.update (linkedCalls.addChild ⟨1⟩ ⟨6⟩) false = (none, m) ∧
    m.update (linkedCalls.setParent ⟨2⟩ none) false = (none, m) ∧
    m.update (linkedCalls.dropChild ⟨1⟩ ⟨2⟩) false = (none, m) ∧
    (m.update ((linkedCalls.addChild ⟨1⟩ ⟨6⟩).setParent ⟨6⟩ (some ⟨1⟩)) false).2.last =
      some (PhoneState.ofCalls ((linkedCalls.addChild ⟨1⟩ ⟨6⟩).setParent ⟨6⟩ (some ⟨1⟩))) := by
  intro m
  have hu := uniqueIds_linkedCalls
  have hs := isSettled_linkedCalls
  have hp : conferenceOfTwo ∈ linkedCalls.calls := List.mem_cons_self
  obtain ⟨hhalf, hjoined⟩ := half_written_not_told (c := freeCall) hu hs hp rfl (by decide) m
  obtain ⟨hhalf', -⟩ := half_written_not_told (c := firstLeg) hu hs hp rfl (by decide) m
  exact ⟨hu, hs, hhalf _ (.parentSet rfl), hhalf _ (.childListed rfl), hhalf' _ (.parentCleared rfl),
    hhalf' _ (.childDropped rfl), (hjoined rfl _ .childFirst).2 (by decide)⟩

end Debounce

end HandsFree

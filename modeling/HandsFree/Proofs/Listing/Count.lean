import HandsFree.Proofs.CallTable.Settled
import HandsFree.Proofs.Listing
import Mathlib.Algebra.Ring.Nat
import Mathlib.Data.List.Perm.Basic

/-! How many lines a listing has. A listing goes through the table and looks at no list of legs; the legs
    counted by those lists are the same, because settled links hold both ways: the legs that a conference
    lists are the calls that name it, each of them once, and no call names two conferences. -/

namespace HandsFree
namespace CallTable
variable {t : CallTable} {p : Call}

/-! ### Legs by their conference -/

theorem Settled.perm_children (hs : t.Settled) (hu : t.UniqueIds) (hp : p ∈ t.calls)
    (he : p.exposesChildren = true) (hn : p.children.Nodup) :
    ((t.calls.filter fun c => c.parent == some p.id).map Call.id).Perm p.children := by
  have hnodup : ((t.calls.filter fun c => c.parent == some p.id).map Call.id).Nodup :=
    (List.filter_sublist.map Call.id).nodup hu
  rw [List.perm_ext_iff_of_nodup hnodup hn]
  intro id
  rw [hs.listed p hp he]
  simp only [List.mem_map, List.mem_filter, beq_iff_eq]
  constructor
  · rintro ⟨c, ⟨hc, hpar⟩, hid⟩
    exact ⟨c, hc, hid, hpar⟩
  · rintro ⟨c, hc, hid, hpar⟩
    exact ⟨c, ⟨hc, hpar⟩, hid⟩

theorem Settled.countP_children (hs : t.Settled) (hu : t.UniqueIds) (hp : p ∈ t.calls)
    (he : p.exposesChildren = true) (hn : p.children.Nodup) (q : Call → Bool) :
    (p.children.countP fun id => (t.get? id).any q) =
      t.calls.countP fun c => q c && c.parent == some p.id := by
  rw [← (hs.perm_children hu hp he hn).countP_eq, List.countP_map, ← List.countP_filter]
  refine List.countP_congr fun c hc => ?_
  rw [Function.comp_apply, hu.get?_of_mem (List.mem_of_mem_filter hc)]
  exact Iff.rfl

theorem countP_split (cs : List Call) (q r : Call → Bool) :
    cs.countP q = (cs.countP fun c => q c && r c) + cs.countP fun c => q c && !r c := by
  rw [List.countP_eq_countP_filter_add cs q r, List.countP_filter, List.countP_filter]

/-- No call is a leg of two conferences, so the legs of several may be counted conference by conference. -/
theorem sum_countP_parent (cs : List Call) (q : Call → Bool) : ∀ ps : List Call, (ps.map Call.id).Nodup →
    (ps.map fun p => cs.countP fun c => q c && c.parent == some p.id).sum =
      cs.countP fun c => q c && ps.any fun p => c.parent == some p.id
  | [], _ => by simp
  | p :: ps, hn => by
    rw [List.map_cons, List.nodup_cons] at hn
    have hother : ∀ c : Call, (ps.any fun p => c.parent == some p.id) = true → ¬c.parent = some p.id := by
      intro c hany hpar
      obtain ⟨p', hp', hpar'⟩ := List.any_eq_true.mp hany
      rw [beq_iff_eq, hpar, Option.some.injEq] at hpar'
      exact hn.1 (hpar' ▸ List.mem_map_of_mem hp')
    rw [List.map_cons, List.sum_cons, sum_countP_parent cs q ps hn.2,
      countP_split cs (fun c => q c && (p :: ps).any fun p => c.parent == some p.id) fun c => c.parent == some p.id]
    congr 1
    · refine List.countP_congr fun c _ => ?_
      cases hpar : c.parent == some p.id <;> simp [hpar]
    · refine List.countP_congr fun c _ => ?_
      simp only [List.any_cons, Bool.and_eq_true, Bool.or_eq_true, Bool.not_eq_true', beq_eq_false_iff_ne, beq_iff_eq]
      constructor
      · rintro ⟨hq, hany⟩
        exact ⟨⟨hq, Or.inr hany⟩, hother c hany⟩
      · rintro ⟨⟨hq, hpar | hany⟩, hne⟩
        · exact absurd hpar hne
        · exact ⟨hq, hany⟩

/-- The legs of all conferences, counted in the table and by the lists of the conferences. -/
theorem Settled.countP_legs (hs : t.Settled) (hu : t.UniqueIds)
    (hn : ∀ p ∈ t.calls, p.exposesChildren = true → p.children.Nodup) (q : Call → Bool) :
    (t.calls.countP fun c => q c && !c.isTopLevel) =
      ((t.calls.filter Call.exposesChildren).map fun p => p.children.countP fun id => (t.get? id).any q).sum := by
  have hlists : ∀ p ∈ t.calls.filter Call.exposesChildren,
      (p.children.countP fun id => (t.get? id).any q) =
        t.calls.countP fun c => q c && c.parent == some p.id := by
    intro p hp
    obtain ⟨hp, he⟩ := List.mem_filter.mp hp
    exact hs.countP_children hu hp he (hn p hp he) q
  have hids : ((t.calls.filter Call.exposesChildren).map Call.id).Nodup :=
    (List.filter_sublist.map Call.id).nodup hu
  rw [List.map_congr_left hlists, sum_countP_parent _ _ _ hids]
  refine List.countP_congr fun c hc => ?_
  rw [Bool.and_eq_true, Bool.and_eq_true]
  refine and_congr_right fun _ => ?_
  constructor
  · intro hleg
    obtain ⟨id, hid⟩ : ∃ id, c.parent = some id := by
      simpa [Call.isTopLevel, Option.isSome_iff_exists] using hleg
    obtain ⟨p, hp, rfl, he, -⟩ := hs.exists_parent hc hid
    exact List.any_eq_true.mpr ⟨p, List.mem_filter.mpr ⟨hp, he⟩, by simp [hid]⟩
  · intro hany
    obtain ⟨p, -, hpar⟩ := List.any_eq_true.mp hany
    rw [beq_iff_eq] at hpar
    simp [Call.isTopLevel, hpar]

end CallTable

namespace Listing
open CallTable
variable {t : CallTable}

theorem length_entries_eq_countP (t : CallTable) : (entries t).length = t.calls.countP hasLine := by
  rw [length_entries, listed, List.countP_eq_length_filter]

/-- A listing has a line for every call at top level that shows no legs, and a line for every leg that a
    conference lists; of both, only calls that have begun and are not about to end are counted. -/
theorem length_shown_eq (hu : t.UniqueIds) (hlen : t.calls.length < UInt32.size - 1) (hs : t.isSettled = true)
    (hn : ∀ p ∈ t.calls, p.exposesChildren = true → p.children.Nodup)
    (htop : ∀ p ∈ t.calls, p.exposesChildren = true → p.parent = none) :
    ((ofCalls t).filter fun e => !e.isEndMarker).length =
      (t.calls.countP fun c => isReportable c.state && c.isTopLevel && !c.exposesChildren) +
      ((t.calls.filter Call.exposesChildren).map fun p =>
        p.children.countP fun id => (t.get? id).any fun c => isReportable c.state).sum := by
  have hs' := (isSettled_iff hu).mp hs
  rw [filter_ofCalls hlen, length_entries_eq_countP, ← hs'.countP_legs hu hn, countP_split _ _ Call.isTopLevel]
  congr 1
  · refine List.countP_congr fun c _ => ?_
    cases he : c.exposesChildren <;> simp [hasLine, he]
  · refine List.countP_congr fun c hc => ?_
    cases he : c.exposesChildren with
    | false => simp [hasLine, he]
    | true => simp [hasLine, he, Call.isTopLevel, htop c hc he]

/-- Two conferences, one with a leg that has ended, another that hides its participants, and two plain calls
    of which one has not begun. -/
def mixedCalls : CallTable :=
  ⟨[{ id := ⟨1⟩, state := .active, isConference := true, children := [⟨2⟩, ⟨3⟩, ⟨4⟩] },
    { id := ⟨2⟩, state := .active, parent := some ⟨1⟩ },
    { id := ⟨5⟩, state := .onHold },
    { id := ⟨3⟩, state := .disconnected, parent := some ⟨1⟩ },
    { id := ⟨6⟩, state := .new },
    { id := ⟨4⟩, state := .onHold, parent := some ⟨1⟩ },
    { id := ⟨7⟩, state := .onHold, capabilities := { noChildren := true }, isConference := true },
    { id := ⟨8⟩, state := .onHold, isConference := true, children := [⟨9⟩] },
    { id := ⟨9⟩, state := .ringing, parent := some ⟨8⟩ }]⟩

theorem length_shown_eq_mixedCalls : mixedCalls.UniqueIds ∧ mixedCalls.isSettled = true ∧
    (∀ p ∈ mixedCalls.calls, p.exposesChildren = true → p.children.Nodup ∧ p.parent = none) ∧
    ((ofCalls mixedCalls).filter fun e => !e.isEndMarker).length = 2 + (2 + 1) := by
  have hu : mixedCalls.UniqueIds := by decide
  have hs : mixedCalls.isSettled = true := by decide
  have hp : ∀ p ∈ mixedCalls.calls, p.exposesChildren = true → p.children.Nodup ∧ p.parent = none := by decide
  refine ⟨hu, hs, hp, ?_⟩
  rw [length_shown_eq hu (by decide) hs (fun p hm he => (hp p hm he).1) fun p hm he => (hp p hm he).2]
  decide

end Listing

end HandsFree

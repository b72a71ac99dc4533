import HandsFree.Proofs.CallTable.Settled
import HandsFree.Proofs.Listing

/-! The legs of a conference that can still merge or swap them. They are listed apart from each other: the
    leg in the foreground as the active call, and every other one as held. A leg counts as part of a
    conference (multiparty) only if it is on hold by itself; an active leg that is merely shown as held
    does not. -/

namespace HandsFree.Listing
open CallTable
variable {t : CallTable} {p c : Call}

/-- A conference of plain calls, active or on hold, that can still merge or swap them, with an active one in
    its foreground. -/
structure Divisible (t : CallTable) (p : Call) : Prop where
  mem : p ∈ t.calls
  exposes : p.exposesChildren = true
  can : p.can .merge = true ∨ p.canSwapLegs = true
  foreground : ∃ c ∈ t.childrenOf p.id, c.state = .active ∧ p.activeLeg = some c.id
  legs : ∀ c ∈ t.childrenOf p.id, c.isConference = false ∧ (c.state = .active ∨ c.state = .onHold)

/-- The entries of the legs that the conference lists, each with its leg. -/
def legEntries (t : CallTable) (p : Call) : List (Call × ListEntry) :=
  (byCall t).filter fun x => p.children.contains x.1.id

namespace Divisible

theorem leg (hu : t.UniqueIds) (h : Divisible t p) (hc : c ∈ t.calls) (hid : c.id ∈ p.children) :
    c.isConference = false ∧ (c.state = .active ∨ c.state = .onHold) :=
  h.legs c ((mem_childrenOf hu h.mem).mpr ⟨hc, hid⟩)

theorem hasLine_leg (hu : t.UniqueIds) (h : Divisible t p) (hc : c ∈ t.calls) (hid : c.id ∈ p.children) :
    hasLine c = true := by
  obtain ⟨hconf, hstate | hstate⟩ := h.leg hu hc hid <;>
    simp [hasLine, Call.exposesChildren, hconf, hstate, isReportable]

theorem activeLeg_ne_of_onHold (hu : t.UniqueIds) (h : Divisible t p) (hc : c ∈ t.calls) (hstate : c.state = .onHold) :
    p.activeLeg ≠ some c.id := by
  intro hleg
  obtain ⟨d, hd, hactive, hdleg⟩ := h.foreground
  rw [hdleg, Option.some.injEq] at hleg
  have hdc : d = c := hu.eq_of_id ((mem_childrenOf hu h.mem).mp hd).1 hc hleg
  rw [hdc, hstate] at hactive
  cases hactive

theorem lineOf_leg (hu : t.UniqueIds) (hs : t.Settled) (h : Divisible t p) (hc : c ∈ t.calls)
    (hid : c.id ∈ p.children) : lineOf t c =
      ⟨c.direction, if p.activeLeg = some c.id then .active else .held, c.state == .onHold, c.displayNumber⟩ := by
  have hpar : c.parent = some p.id := hs.parent_of_mem_children hu h.mem h.exposes hc hid
  have hline : lineOf t c = legLine p c (ownState t c) := by
    rw [lineOf, hpar, Option.bind_some, hu.get?_of_mem h.mem]
  obtain ⟨leg, -, -, hleg⟩ := h.foreground
  rw [hline]
  -- An active leg is looked at again. One on hold is not, and so it stays part of the conference.
  obtain ⟨-, hstate | hstate⟩ := h.leg hu hc hid
  · have hown : ownState t c = .active := (ofCall_eq_active_iff _ _).mpr hstate
    have hcan : (p.can .merge || p.canSwapLegs) = true := by simpa using h.can
    have hheld : (c.state == .onHold) = false := by rw [hstate]; rfl
    simp only [legLine, hown, hleg, if_pos hcan, hheld, Option.some.injEq, eq_comm (a := c.id)]
  · have hown : ownState t c = .held := (ofCall_eq_held_iff _ _).mpr hstate
    rw [hown, if_neg (h.activeLeg_ne_of_onHold hu hc hstate), hstate]
    rfl

theorem map_fst_legEntries (hu : t.UniqueIds) (h : Divisible t p) :
    (legEntries t p).map Prod.fst = t.calls.filter fun c => p.children.contains c.id := by
  have hfilter : (legEntries t p).map Prod.fst = (listed t).filter fun c => p.children.contains c.id := by
    rw [← map_fst_byCall, List.filter_map]
    rfl
  rw [hfilter, listed, List.filter_filter]
  refine List.filter_congr fun c hc => ?_
  cases hid : p.children.contains c.id with
  | false => rfl
  | true => exact h.hasLine_leg hu hc (List.contains_iff_mem.mp hid)

theorem exists_entry (hu : t.UniqueIds) (hs : t.Settled) (h : Divisible t p) {id : CallId} (hid : id ∈ p.children) :
    ∃ x ∈ legEntries t p, x.1.id = id := by
  obtain ⟨c, hc, rfl, -⟩ := (hs.listed p h.mem h.exposes id).mp hid
  have hleg : c ∈ (legEntries t p).map Prod.fst := by
    rw [h.map_fst_legEntries hu]
    exact List.mem_filter.mpr ⟨hc, List.contains_iff_mem.mpr hid⟩
  obtain ⟨x, hx, rfl⟩ := List.mem_map.mp hleg
  exact ⟨x, hx, rfl⟩

theorem entry (hu : t.UniqueIds) (hs : t.Settled) (h : Divisible t p) {x : Call × ListEntry}
    (hx : x ∈ legEntries t p) :
    x.2.state = (if p.activeLeg = some x.1.id then .active else .held) ∧
    x.2.multiparty = (x.1.state == .onHold) ∧
    x.2.direction = x.1.direction ∧ x.2.number = x.1.displayNumber := by
  obtain ⟨c, e⟩ := x
  obtain ⟨hx, hid⟩ := List.mem_filter.mp hx
  obtain ⟨hc, i, rfl⟩ := of_mem_byCall hx
  rw [h.lineOf_leg hu hs (List.mem_of_mem_filter hc) (List.contains_iff_mem.mp hid)]
  exact ⟨rfl, rfl, rfl, rfl⟩

theorem countP_activeLeg (hu : t.UniqueIds) (h : Divisible t p) :
    (legEntries t p).countP (fun x => p.activeLeg == some x.1.id) = 1 := by
  obtain ⟨d, hd, -, hleg⟩ := h.foreground
  obtain ⟨hd, hid⟩ := (mem_childrenOf hu h.mem).mp hd
  have honly : ∀ c ∈ t.calls, (p.activeLeg == some c.id && p.children.contains c.id) = true ↔ (c == d) = true := by
    intro c hc
    rw [hleg, Bool.and_eq_true, beq_iff_eq, Option.some.injEq, List.contains_iff_mem, beq_iff_eq]
    constructor
    · rintro ⟨hdc, -⟩
      exact hu.eq_of_id hc hd hdc.symm
    · rintro rfl
      exact ⟨rfl, hid⟩
  calc (legEntries t p).countP (fun x => p.activeLeg == some x.1.id)
      = ((legEntries t p).map Prod.fst).countP fun c => p.activeLeg == some c.id := by
        rw [List.countP_map]
        rfl
    _ = t.calls.countP fun c => p.activeLeg == some c.id && p.children.contains c.id := by
        rw [h.map_fst_legEntries hu, List.countP_filter]
    _ = t.calls.count d := List.countP_congr honly
    _ = 1 := List.count_eq_one_of_mem (List.Nodup.of_map _ hu) hd

theorem countP_active (hu : t.UniqueIds) (hs : t.Settled) (h : Divisible t p) :
    (legEntries t p).countP (fun x => x.2.state == .active) = 1 := by
  rw [← h.countP_activeLeg hu]
  refine List.countP_congr fun x hx => ?_
  rw [(h.entry hu hs hx).1]
  by_cases hleg : p.activeLeg = some x.1.id
  · simp [hleg]
  · simp [hleg]

end Divisible

/-- Each leg of such a conference has one entry, in the order of the table. Exactly one of them is active,
    that of the leg in the foreground, and all others are held. A leg on hold is marked as part of a
    conference, and an active leg is not. -/
theorem legs_shown_apart (hu : t.UniqueIds) (hs : t.isSettled = true) (h : Divisible t p) :
    (legEntries t p).map Prod.fst = t.calls.filter (fun c => p.children.contains c.id) ∧
    (∀ id ∈ p.children, ∃ x ∈ legEntries t p, x.1.id = id) ∧
    (legEntries t p).countP (fun x => x.2.state == .active) = 1 ∧
    ∀ x ∈ legEntries t p,
      x.2.state = (if p.activeLeg = some x.1.id then .active else .held) ∧
      x.2.multiparty = (x.1.state == .onHold) ∧
      x.2.direction = x.1.direction ∧ x.2.number = x.1.displayNumber := by
  have hs' := (isSettled_iff hu).mp hs
  exact ⟨h.map_fst_legEntries hu, fun _ => h.exists_entry hu hs', h.countP_active hu hs', fun _ => h.entry hu hs'⟩

/-- A conference of three that can swap its legs. The second leg is on hold by itself. -/
def swapConference : Call :=
  { id := ⟨1⟩, state := .active, capabilities := { swap := true }, isConference := true,
    children := [⟨2⟩, ⟨3⟩, ⟨4⟩], activeLeg := some ⟨2⟩ }

def swapCalls : CallTable :=
  ⟨[swapConference, { id := ⟨2⟩, state := .active, parent := some ⟨1⟩ },
    { id := ⟨3⟩, state := .onHold, parent := some ⟨1⟩ },
    { id := ⟨4⟩, state := .active, parent := some ⟨1⟩ }]⟩

theorem divisible_swapCalls : Divisible swapCalls swapConference :=
  ⟨by decide, by decide, by decide, by decide, by decide⟩

theorem legs_shown_apart_swapCalls : swapCalls.UniqueIds ∧ swapCalls.isSettled = true ∧
    Divisible swapCalls swapConference ∧
    (legEntries swapCalls swapConference).countP (fun x => x.2.state == .active) = 1 ∧
    ∀ x ∈ legEntries swapCalls swapConference, x.2.multiparty = (x.1.state == .onHold) := by
  have hu : swapCalls.UniqueIds := by decide
  have hs : swapCalls.isSettled = true := by decide
  obtain ⟨-, -, hone, hentry⟩ := legs_shown_apart hu hs divisible_swapCalls
  exact ⟨hu, hs, divisible_swapCalls, hone, fun x hx => (hentry x hx).2.1⟩

/-- The second leg is shown as held, and marked as part of a conference all the same. -/
theorem not_forall_not_multiparty : ¬∀ (t : CallTable) (p : Call), t.UniqueIds → t.isSettled = true →
    Divisible t p → (legEntries t p).countP (fun x => x.2.state == .active) = 1 ∧
      ∀ x ∈ legEntries t p, x.2.state = (if p.activeLeg = some x.1.id then .active else .held) ∧
        x.2.multiparty = false := by
  intro h
  obtain ⟨-, hall⟩ := h swapCalls swapConference (by decide) (by decide) divisible_swapCalls
  have hheld : ∃ x ∈ legEntries swapCalls swapConference, x.2.multiparty = true := by decide
  obtain ⟨x, hx, hm⟩ := hheld
  rw [(hall x hx).2] at hm
  cases hm

end HandsFree.Listing

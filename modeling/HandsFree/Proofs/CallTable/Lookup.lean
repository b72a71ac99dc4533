import HandsFree.CallTable.Roles
import Mathlib.Data.Finset.Card
import Mathlib.Data.List.Nodup

/-! Look-ups by id and by part. Where no two records share an id, a look-up finds every record under its
    own id, so the call that plays a part is looked up as itself. Whether there is such a call at all
    does not depend on the ids. -/

namespace HandsFree.CallTable
variable {t : CallTable} {id : CallId} {c d : Call}

/-! ### Unique ids -/

instance (t : CallTable) : Decidable t.UniqueIds := inferInstanceAs (Decidable t.ids.Nodup)

theorem UniqueIds.eq_of_id (hu : t.UniqueIds) (hc : c ∈ t.calls) (hd : d ∈ t.calls) (h : c.id = d.id) : c = d :=
  List.inj_on_of_nodup_map hu hc hd h

theorem UniqueIds.get?_of_mem (hu : t.UniqueIds) (hc : c ∈ t.calls) : t.get? c.id = some c := by
  cases hd : t.get? c.id with
  | some d => rw [hu.eq_of_id (mem_of_get? hd) hc (id_of_get? hd)]
  | none =>
    have hne := List.find?_eq_none.mp hd c hc
    simp at hne

theorem UniqueIds.get?_eq_some_iff (hu : t.UniqueIds) : t.get? id = some c ↔ c ∈ t.calls ∧ c.id = id := by
  constructor
  · intro h
    exact ⟨mem_of_get? h, id_of_get? h⟩
  · rintro ⟨hc, rfl⟩
    exact hu.get?_of_mem hc

/-- A check of the record with a given id, as a statement about the members of the table. -/
theorem UniqueIds.any_get?_iff (hu : t.UniqueIds) {p : Call → Bool} :
    (t.get? id).any p = true ↔ ∃ c ∈ t.calls, c.id = id ∧ p c = true := by
  rw [Option.any_eq_true]
  constructor
  · rintro ⟨c, hc, hp⟩
    exact ⟨c, mem_of_get? hc, id_of_get? hc, hp⟩
  · rintro ⟨c, hc, rfl, hp⟩
    exact ⟨c, hu.get?_of_mem hc, hp⟩

/-- A search that is only about the records kept by a filter does not see the filter. -/
theorem find?_filter_of_imp {p q : Call → Bool} (h : ∀ c, q c = true → p c = true) (cs : List Call) :
    (cs.filter p).find? q = cs.find? q := by
  rw [List.find?_filter]
  congr 1
  funext c
  cases hq : q c with
  | false => simp
  | true => simp [h c hq]

theorem UniqueIds.bind_get?_firstTopLevel? (hu : t.UniqueIds) (p : Call → Bool) :
    (t.firstTopLevel? p).bind t.get? = t.calls.find? fun c => c.isTopLevel && p c := by
  unfold firstTopLevel?
  cases h : t.calls.find? fun c => c.isTopLevel && p c with
  | none => rfl
  | some c => exact hu.get?_of_mem (List.mem_of_find?_eq_some h)

/-- An id is a number of 32 bits, which bounds the number of records. -/
theorem UniqueIds.length_le (hu : t.UniqueIds) : t.calls.length ≤ UInt32.size := by
  have hinj : Function.Injective fun i : CallId => i.number.toNat := by
    rintro ⟨a⟩ ⟨b⟩ hab
    exact congrArg CallId.mk (UInt32.toNat_inj.mp hab)
  have hnodup : (t.ids.map fun i => i.number.toNat).Nodup := hu.map hinj
  have hsub : (t.ids.map fun i => i.number.toNat).toFinset ⊆ Finset.range (UInt32.size) := by
    intro n hn
    obtain ⟨i, -, rfl⟩ := List.mem_map.mp (List.mem_toFinset.mp hn)
    exact Finset.mem_range.mpr i.number.toNat_lt_size
  calc t.calls.length = (t.ids.map fun i => i.number.toNat).length := by simp [ids]
    _ = (t.ids.map fun i => i.number.toNat).toFinset.card := (List.toFinset_card_of_nodup hnodup).symm
    _ ≤ (Finset.range (UInt32.size)).card := Finset.card_le_card hsub
    _ = UInt32.size := Finset.card_range _

/-! ### Calls at top level -/

/-- Some call that is no leg of a conference is in a state of the given kind. -/
def HasTopLevel (t : CallTable) (q : CallState → Prop) : Prop := ∃ c ∈ t.calls, c.parent = none ∧ q c.state

instance (t : CallTable) (q : CallState → Prop) [DecidablePred q] : Decidable (t.HasTopLevel q) :=
  inferInstanceAs (Decidable (∃ c ∈ t.calls, _))

theorem isSome_bind_get?_firstTopLevel? {q : CallState → Bool} :
    ((t.firstTopLevel? fun c => q c.state).bind t.get?).isSome = true ↔ t.HasTopLevel fun x => q x = true := by
  unfold HasTopLevel
  cases h : t.firstTopLevel? fun c => q c.state with
  | none =>
    rw [firstTopLevel?_eq_none_iff] at h
    simp only [Option.bind_none, Option.isSome_none, Bool.false_eq_true, false_iff, not_exists, not_and]
    intro c hc htop hq
    rw [h c hc (by simp [Call.isTopLevel, htop])] at hq
    cases hq
  | some id =>
    obtain ⟨c, hc, hid, htop, hq⟩ := exists_of_firstTopLevel? h
    -- The record found under the id may be another one if ids repeat, but there is one.
    have hfound : (t.get? id).isSome = true := by
      rw [← hid]
      exact contains_iff.mpr (List.mem_map_of_mem hc)
    rw [Option.bind_some]
    exact iff_of_true hfound ⟨c, hc, by simpa [Call.isTopLevel] using htop, hq⟩

theorem isSome_activeCall?_iff : t.activeCall?.isSome = true ↔ t.HasTopLevel (· = .active) := by
  have h := isSome_bind_get?_firstTopLevel? (t := t) (q := fun x => [CallState.active].contains x)
  simpa [activeCall?, active?, firstInStates?, HasTopLevel] using h

theorem isSome_active?_of_hasTopLevel (h : t.HasTopLevel (· = .active)) : t.active?.isSome = true := by
  obtain ⟨c, hc⟩ := Option.isSome_iff_exists.mp (isSome_activeCall?_iff.mpr h)
  obtain ⟨id, hid, -⟩ := Option.bind_eq_some_iff.mp hc
  rw [hid]
  rfl

theorem isSome_ringingCall?_iff : t.ringingCall?.isSome = true ↔ t.HasTopLevel (· = .ringing) := by
  have h := isSome_bind_get?_firstTopLevel? (t := t) (q := fun x => [CallState.ringing].contains x)
  simpa [ringingCall?, ringing?, firstInStates?, HasTopLevel] using h

theorem isSome_outgoingCall?_iff :
    t.outgoingCall?.isSome = true ↔ t.HasTopLevel fun x => x.isOutgoing = true :=
  isSome_bind_get?_firstTopLevel?

theorem activeCall?_eq_none_iff : t.activeCall? = none ↔ ¬t.HasTopLevel (· = .active) := by
  rw [← isSome_activeCall?_iff, Option.not_isSome_iff_eq_none]

theorem ringingCall?_eq_none_iff : t.ringingCall? = none ↔ ¬t.HasTopLevel (· = .ringing) := by
  rw [← isSome_ringingCall?_iff, Option.not_isSome_iff_eq_none]

theorem outgoingCall?_eq_none_iff : t.outgoingCall? = none ↔ ¬t.HasTopLevel fun x => x.isOutgoing = true := by
  rw [← isSome_outgoingCall?_iff, Option.not_isSome_iff_eq_none]

theorem heldCount_pos_iff : 0 < t.heldCount ↔ t.HasTopLevel (· = .onHold) := by
  simp [heldCount, countInState, HasTopLevel, List.countP_pos_iff, Call.isTopLevel]

theorem UniqueIds.of_activeCall? (hu : t.UniqueIds) (h : t.activeCall? = some c) :
    c ∈ t.calls ∧ c.parent = none ∧ c.state = .active := by
  rw [activeCall?, active?, firstInStates?, hu.bind_get?_firstTopLevel?] at h
  have hc := List.find?_some h
  exact ⟨List.mem_of_find?_eq_some h, by simpa [Call.isTopLevel] using hc⟩

theorem active?_of_activeCall? (h : t.activeCall? = some c) : t.active? = some c.id := by
  obtain ⟨id, hid, hc⟩ := Option.bind_eq_some_iff.mp h
  rw [hid, id_of_get? hc]

/-- Where all candidates share one id, that is the id found. -/
theorem firstTopLevel?_eq_some {p : Call → Bool} (hc : c ∈ t.calls) (htop : c.parent = none) (hp : p c = true)
    (honly : ∀ d ∈ t.calls, d.parent = none → p d = true → d.id = c.id) : t.firstTopLevel? p = some c.id := by
  cases h : t.firstTopLevel? p with
  | none =>
    rw [firstTopLevel?_eq_none_iff] at h
    rw [h c hc (by simp [Call.isTopLevel, htop])] at hp
    cases hp
  | some id =>
    obtain ⟨d, hd, rfl, hdtop, hdp⟩ := exists_of_firstTopLevel? h
    rw [honly d hd (by simpa [Call.isTopLevel] using hdtop) hdp]

theorem UniqueIds.countInState_eq_one (hu : t.UniqueIds) (hc : c ∈ t.calls) (htop : c.parent = none)
    (honly : ∀ d ∈ t.calls, d.parent = none → d.state = c.state → d.id = c.id) : t.countInState c.state = 1 := by
  have hcount : t.countInState c.state = t.calls.count c := by
    refine List.countP_congr fun d hd => ?_
    simp only [Call.isTopLevel, Bool.and_eq_true, Option.isNone_iff_eq_none, beq_iff_eq]
    constructor
    · rintro ⟨hdtop, hstate⟩
      exact hu.eq_of_id hd hc (honly d hd hdtop hstate)
    · rintro rfl
      exact ⟨htop, rfl⟩
  rw [hcount]
  exact List.count_eq_one_of_mem (List.Nodup.of_map _ hu) hc

theorem heldCount_le_length : t.heldCount ≤ t.calls.length := List.countP_le_length

end HandsFree.CallTable

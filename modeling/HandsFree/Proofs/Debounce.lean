import HandsFree.CallEvent
import Mathlib.Logic.Basic

/-! What the memory of a headset takes for news. Calls at rest are told unless the memory already has their
    phone state, and with it their held call or one that has since become a leg of the active conference.
    Such a merge leaves no trace in the memory. When that leg is gone again, the phone state that the
    headset already has is told once more. -/

namespace HandsFree

/-- No swap is in flight, and no link is half written. -/
def CallTable.AtRest (t : CallTable) : Prop := t.heldCount ≠ 2 ∧ t.isSettled = true

instance (t : CallTable) : Decidable t.AtRest := inferInstanceAs (Decidable (_ ∧ _))

def CallTable.IsActiveLeg (t : CallTable) (id : CallId) : Prop :=
  ∃ c ∈ t.activeCall?, c.exposesChildren = true ∧ id ∈ c.children

instance (t : CallTable) (id : CallId) : Decidable (t.IsActiveLeg id) :=
  inferInstanceAs (Decidable (∃ c ∈ t.activeCall?, _))

namespace Debounce
variable {m : Debounce} {t u a b : CallTable} {e : CallEvent}

/-! ### News -/

theorem accepts_iff (m : Debounce) : m.accepts t = true ↔
    t.heldCount ≠ 2 ∧ t.isSettled = true ∧ m.isNews t = true := by
  rw [Debounce.accepts, Bool.and_eq_true, Bool.and_eq_true, bne_iff_ne, and_assoc]

theorem accepts_iff_isNews (m : Debounce) (ht : t.AtRest) : m.accepts t = true ↔ m.isNews t = true := by
  rw [accepts_iff]
  constructor
  · rintro ⟨-, -, hn⟩
    exact hn
  · intro hn
    exact ⟨ht.1, ht.2, hn⟩

theorem absorbed_iff : m.absorbed t = true ↔ ∃ id, m.held = some id ∧ t.IsActiveLeg id := by
  simp [absorbed, CallTable.IsActiveLeg, Option.any_eq_true]

theorem isNews_iff : m.isNews t = true ↔ m.last ≠ some (PhoneState.ofCalls t) ∨
    (t.held? ≠ m.held ∧ ∀ id, m.held = some id → ¬t.IsActiveLeg id) := by
  rw [isNews, Bool.or_eq_true, bne_iff_ne, Bool.and_eq_true, bne_iff_ne, Bool.not_eq_true',
    ← Bool.not_eq_true, absorbed_iff, not_exists]
  simp only [not_and]

/-! ### Updates that nobody asked for -/

theorem update_of_accepts (h : m.accepts t = true) :
    m.update t false = (some (PhoneState.ofCalls t), sent t) := by
  rw [update, Bool.false_or, if_pos h]

theorem update_of_not_accepts (h : ¬m.accepts t = true) : m.update t false = (none, m) := by
  rw [update, Bool.false_or, if_neg h]

/-- Told now or before, the phone state of calls at rest is the one remembered. -/
theorem last_update (m : Debounce) (ht : t.AtRest) :
    (m.update t false).2.last = some (PhoneState.ofCalls t) := by
  by_cases h : m.accepts t = true
  · rw [update_of_accepts h]
    rfl
  · rw [update_of_not_accepts h]
    rw [accepts_iff_isNews m ht, isNews_iff, not_or, not_not] at h
    exact h.1

/-- The event makes the phone state of the calls go out. -/
def Tells (m : Debounce) (t : CallTable) (e : CallEvent) : Prop := e.matters t = true ∧ m.accepts t = true

instance (m : Debounce) (t : CallTable) (e : CallEvent) : Decidable (m.Tells t e) :=
  inferInstanceAs (Decidable (_ ∧ _))

theorem Tells.onEvent (h : m.Tells t e) : m.onEvent e t = (some (PhoneState.ofCalls t), sent t) := by
  obtain ⟨he, ha⟩ := h
  rw [Debounce.onEvent, if_pos he, update_of_accepts ha]

theorem onEvent_of_not_tells (h : ¬m.Tells t e) : m.onEvent e t = (none, m) := by
  unfold Debounce.onEvent
  by_cases he : e.matters t = true
  · have ha : ¬m.accepts t = true := fun ha => h ⟨he, ha⟩
    rw [if_pos he, update_of_not_accepts ha]
  · rw [if_neg he]

theorem not_accepts_sent (hp : PhoneState.ofCalls t = PhoneState.ofCalls u) (hh : t.held? = u.held?) :
    ¬(sent t).accepts u = true := by
  rw [accepts_iff, isNews_iff]
  rintro ⟨-, -, hlast | ⟨hheld, -⟩⟩
  · exact hlast (congrArg some hp)
  · exact hheld hh.symm

/-! ### Updates one after the other -/

/-- What a memory can come to by updates and by forgetting. -/
inductive Reachable : Debounce → Prop
  | new : Reachable {}
  | update {m : Debounce} (t : CallTable) (force : Bool) : Reachable m → Reachable (m.update t force).2
  | reset {m : Debounce} : Reachable m → Reachable {}

theorem Reachable.eq_new_or_sent (h : m.Reachable) : m = {} ∨ ∃ t, m = sent t := by
  induction h with
  | new => exact Or.inl rfl
  | @update m t force _ ih =>
    cases hp : (m.update t force).1 with
    | some p => exact Or.inr ⟨t, (update_eq_some hp).2⟩
    | none =>
      rw [update_eq_none hp]
      exact ih
  | reset => exact Or.inl rfl

/-- The call on hold in `t` has become a leg of the active conference in `a`, with the phone state still the
    same, and is no such leg any more in `b`. -/
structure LegLeft (t a b : CallTable) (id : CallId) : Prop where
  state : PhoneState.ofCalls t = PhoneState.ofCalls a
  held : t.held? = some id
  merged : a.held? ≠ some id ∧ a.IsActiveLeg id
  left : ¬b.IsActiveLeg id

/-- A memory that does not tell `a` tells the like of `a` only after a leg has left. -/
theorem isNews_sent_iff (ha : ¬(sent t).isNews a = true) (hp : PhoneState.ofCalls a = PhoneState.ofCalls b)
    (hh : a.held? = b.held?) : (sent t).isNews b = true ↔ ∃ id, LegLeft t a b id := by
  simp only [isNews_iff, sent, ne_eq, Option.some.injEq, not_or, not_not, not_and, not_forall] at ha ⊢
  obtain ⟨hstate, hleg⟩ := ha
  constructor
  · rintro (hne | ⟨hheld, hnone⟩)
    · exact absurd (hstate.trans hp) hne
    · obtain ⟨id, hid, hactive⟩ := hleg (hh ▸ hheld)
      exact ⟨id, hstate, hid, ⟨fun h => hheld (hh ▸ h.trans hid.symm), hactive⟩, hnone id hid⟩
  · rintro ⟨id, hid⟩
    refine Or.inr ⟨fun h => hid.merged.1 (hh.trans (h.trans hid.held)), fun j hj => ?_⟩
    rw [hid.held, Option.some.injEq] at hj
    exact hj ▸ hid.left

/-- Two updates at rest, with the same phone state and the same call on hold: the second tells nothing,
    unless a call that was on hold when the headset was last told has been merged without a word and has
    left the conference since. Then the headset hears once more what it already knows. -/
theorem update_again (hm : m.Reachable) (ha : a.AtRest) (hb : b.AtRest)
    (hp : PhoneState.ofCalls a = PhoneState.ofCalls b) (hh : a.held? = b.held?) :
    ((¬∃ t id, m = sent t ∧ LegLeft t a b id) → ((m.update a false).2.update b false).1 = none) ∧
    ((∃ t id, m = sent t ∧ LegLeft t a b id) →
      m.last = some (PhoneState.ofCalls b) ∧ (m.update a false).1 = none ∧
        ((m.update a false).2.update b false).1 = some (PhoneState.ofCalls b)) := by
  constructor
  · intro hleft
    by_cases hn : m.accepts a = true
    · rw [update_of_accepts hn, update_of_not_accepts (not_accepts_sent hp hh)]
    · rw [update_of_not_accepts hn]
      rw [accepts_iff_isNews m ha] at hn
      -- To a new memory everything is news, so something was sent before.
      rcases hm.eq_new_or_sent with rfl | ⟨t, rfl⟩
      · exact absurd (isNews_iff.mpr (Or.inl (Option.some_ne_none _).symm)) hn
      · have hb' : ¬(sent t).accepts b = true := by
          rw [accepts_iff_isNews _ hb, isNews_sent_iff hn hp hh]
          rintro ⟨id, hid⟩
          exact hleft ⟨t, id, rfl, hid⟩
        rw [update_of_not_accepts hb']
  · rintro ⟨t, id, rfl, hid⟩
    have hn : ¬(sent t).isNews a = true := by
      rw [isNews_iff]
      rintro (hne | ⟨-, hnone⟩)
      · exact hne (congrArg some hid.state)
      · exact hnone id hid.held hid.merged.2
    have ha' : ¬(sent t).accepts a = true := by rwa [accepts_iff_isNews _ ha]
    have hb' : (sent t).accepts b = true := by
      rw [accepts_iff_isNews _ hb, isNews_sent_iff hn hp hh]
      exact ⟨id, hid⟩
    rw [update_of_not_accepts ha', update_of_accepts hb']
    exact ⟨congrArg some (hid.state.trans hp), rfl, rfl⟩

/-- An active call that can be merged, with the given legs. -/
def mergeable (legs : List CallId) : Call :=
  { id := ⟨1⟩, state := .active, capabilities := { merge := true }, isConference := !legs.isEmpty,
    children := legs }

def beforeMerge : CallTable :=
  ⟨[mergeable [], { id := ⟨2⟩, state := .active }, { id := ⟨3⟩, state := .onHold }]⟩

def afterMerge : CallTable :=
  ⟨[mergeable [⟨2⟩, ⟨3⟩], { id := ⟨2⟩, state := .active, parent := some ⟨1⟩ },
    { id := ⟨3⟩, state := .onHold, parent := some ⟨1⟩ }]⟩

def afterLeave : CallTable :=
  ⟨[mergeable [⟨2⟩], { id := ⟨2⟩, state := .active, parent := some ⟨1⟩ }, { id := ⟨3⟩, state := .disconnected }]⟩

theorem reachable_sent_beforeMerge : (sent beforeMerge).Reachable :=
  Reachable.update beforeMerge true .new

theorem update_again_afterLeave :
    (sent beforeMerge).Reachable ∧ afterMerge.AtRest ∧ afterLeave.AtRest ∧
    PhoneState.ofCalls afterMerge = PhoneState.ofCalls afterLeave ∧ afterMerge.held? = afterLeave.held? ∧
    (((sent beforeMerge).update afterMerge false).2.update afterLeave false).1 =
      some (PhoneState.ofCalls afterLeave) := by
  have hm := reachable_sent_beforeMerge
  have ha : afterMerge.AtRest := by decide
  have hb : afterLeave.AtRest := by decide
  have hp : PhoneState.ofCalls afterMerge = PhoneState.ofCalls afterLeave := by decide
  have hh : afterMerge.held? = afterLeave.held? := by decide
  have hleft : LegLeft beforeMerge afterMerge afterLeave ⟨3⟩ := ⟨by decide, by decide, by decide, by decide⟩
  exact ⟨hm, ha, hb, hp, hh, ((update_again hm ha hb hp hh).2 ⟨beforeMerge, ⟨3⟩, rfl, hleft⟩).2.2⟩

/-- So it is not true that calls like those just seen are never told again. -/
theorem not_forall_update_again_eq_none : ¬∀ m : Debounce, m.Reachable → ∀ a b : CallTable,
    a.AtRest → b.AtRest → PhoneState.ofCalls a = PhoneState.ofCalls b → a.held? = b.held? →
      ((m.update a false).2.update b false).1 = none := by
  intro h
  have hnone := h (sent beforeMerge) reachable_sent_beforeMerge afterMerge afterLeave (by decide) (by decide)
    (by decide) (by decide)
  exact absurd hnone (by decide)

end Debounce

end HandsFree

import HandsFree.Proofs.Debounce
import Mathlib.Data.List.Basic

/-! Events that come one after the other while the calls stay as they are. The first of them that matters is
    told if the phone state is news, and then the memory has it, so no later one is told. An event that is
    not told leaves no trace. So a row of events comes to one phone state at most, and neither their order
    nor how often each of them comes makes a difference. -/

namespace HandsFree.Debounce
variable {m : Debounce} {t : CallTable} {e : CallEvent} {es : List CallEvent}

/-- What goes out for a row of events over the same calls, and the memory afterwards. -/
def onEvents (m : Debounce) (t : CallTable) : List CallEvent → List PhoneState × Debounce
  | [] => ([], m)
  | e :: es =>
    let told := m.onEvent e t
    let later := told.2.onEvents t es
    (told.1.toList ++ later.1, later.2)

/-- To a memory that has the calls already, no event tells them again. -/
theorem not_tells_sent : ¬(sent t).Tells t e := fun h => not_accepts_sent rfl rfl h.2

/-! ### A row of events -/

theorem onEvents_cons_of_not_tells (h : ¬m.Tells t e) (es : List CallEvent) :
    m.onEvents t (e :: es) = m.onEvents t es := by
  rw [onEvents, onEvent_of_not_tells h]
  rfl

theorem onEvents_of_not_tells (h : ¬∃ e ∈ es, m.Tells t e) : m.onEvents t es = ([], m) := by
  induction es with
  | nil => rfl
  | cons e es ih =>
    rw [List.exists_mem_cons_iff, not_or] at h
    obtain ⟨hfirst, hlater⟩ := h
    rw [onEvents_cons_of_not_tells hfirst, ih hlater]

theorem onEvents_of_tells (h : ∃ e ∈ es, m.Tells t e) : m.onEvents t es = ([PhoneState.ofCalls t], sent t) := by
  induction es with
  | nil =>
    obtain ⟨e, he, -⟩ := h
    cases he
  | cons e es ih =>
    -- Either this event is told and leaves a memory that tells no other, or the memory is still `m`.
    by_cases hfirst : m.Tells t e
    · have hrest : ¬∃ e ∈ es, (sent t).Tells t e := fun ⟨_, _, h⟩ => not_tells_sent h
      rw [onEvents, hfirst.onEvent]
      dsimp only
      rw [onEvents_of_not_tells hrest]
      rfl
    · rw [onEvents_cons_of_not_tells hfirst]
      rcases (List.exists_mem_cons_iff _ _ _).mp h with h | h
      · exact absurd h hfirst
      · exact ih h

/-- While the calls stay as they are, a row of events comes to nothing or to the phone state of the calls,
    told once; it is told if and only if it is news and some event matters. The same events in another
    order, or each of them as often as one likes, come to the same and leave the same memory. -/
theorem events_told_once (m : Debounce) (t : CallTable) (es : List CallEvent) :
    (m.onEvents t es = ([], m) ∨ m.onEvents t es = ([PhoneState.ofCalls t], sent t)) ∧
    ((m.onEvents t es).1 = [PhoneState.ofCalls t] ↔ m.accepts t = true ∧ ∃ e ∈ es, e.matters t = true) ∧
    ∀ es', (∀ e, e ∈ es' ↔ e ∈ es) → m.onEvents t es' = m.onEvents t es := by
  have htells : (∃ e ∈ es, m.Tells t e) ↔ m.accepts t = true ∧ ∃ e ∈ es, e.matters t = true := by
    constructor
    · rintro ⟨e, he, hmatters, ha⟩
      exact ⟨ha, e, he, hmatters⟩
    · rintro ⟨ha, e, he, hmatters⟩
      exact ⟨e, he, hmatters, ha⟩
  rw [← htells]
  by_cases h : ∃ e ∈ es, m.Tells t e
  · refine ⟨Or.inr (onEvents_of_tells h), iff_of_true ?_ h, fun es' hsame => ?_⟩
    · rw [onEvents_of_tells h]
    · obtain ⟨e, he, htell⟩ := h
      rw [onEvents_of_tells ⟨e, he, htell⟩, onEvents_of_tells ⟨e, (hsame e).mpr he, htell⟩]
  · refine ⟨Or.inl (onEvents_of_not_tells h), iff_of_false ?_ h, fun es' hsame => ?_⟩
    · rw [onEvents_of_not_tells h]
      exact (List.cons_ne_nil _ _).symm
    · have h' : ¬∃ e ∈ es', m.Tells t e := fun ⟨e, he, htell⟩ => h ⟨e, (hsame e).mp he, htell⟩
      rw [onEvents_of_not_tells h, onEvents_of_not_tells h']

/-- A call has gone on hold for one that is still connecting. -/
def makingRoom : CallTable := ⟨[{ id := ⟨1⟩, state := .onHold }, { id := ⟨2⟩, state := .connecting }]⟩

theorem events_told_once_makingRoom :
    let hold := CallEvent.stateChanged ⟨1⟩ .active .onHold
    let added := CallEvent.added ⟨2⟩
    (({} : Debounce).onEvents makingRoom [hold, added]).1 = [PhoneState.ofCalls makingRoom] ∧
    (∀ e, e ∈ [added, added, hold] ↔ e ∈ [hold, added]) ∧
    ({} : Debounce).onEvents makingRoom [added, added, hold] = ({} : Debounce).onEvents makingRoom [hold, added] := by
  intro hold added
  obtain ⟨-, htold, hsame⟩ := events_told_once {} makingRoom [hold, added]
  have hmem : ∀ e, e ∈ [added, added, hold] ↔ e ∈ [hold, added] := by
    intro e
    simp only [List.mem_cons, List.not_mem_nil, or_false]
    rw [← or_assoc, or_self, or_comm]
  exact ⟨htold.mpr ⟨by decide, added, by decide, rfl⟩, hmem, hsame _ hmem⟩

end HandsFree.Debounce

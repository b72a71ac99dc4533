import HandsFree.Proofs.CallTable.Update
import HandsFree.Proofs.Debounce
import HandsFree.Proofs.Service.Wire

/-! Changes of state and their reports. The call manager first changes a call and reports it some time
    later, so changes and reports of several calls interleave. A report that does not matter, or brings no
    news, leaves the headset as it was; of a row of reports about the same calls at most one is told. -/

namespace HandsFree

/-- A call comes into another state, or the call manager reports that it has. -/
inductive Transition
  | enter (call : CallId) (state : CallState)
  | report (call : CallId) (before after : CallState)

/-- A change of state with its report. -/
def Transition.reported (call : CallId) (before after : CallState) : List Transition :=
  [.enter call after, .report call before after]

/-- `zs` consists of `xs` and `ys`, each in its own order. -/
inductive Interleaving {α : Type} : List α → List α → List α → Prop
  | nil : Interleaving [] [] []
  | left {x : α} {xs ys zs : List α} : Interleaving xs ys zs → Interleaving (x :: xs) ys (x :: zs)
  | right {y : α} {xs ys zs : List α} : Interleaving xs ys zs → Interleaving xs (y :: ys) (y :: zs)

namespace Interleaving
variable {α : Type} {xs ys zs : List α}

theorem eq_right (h : Interleaving [] ys zs) : zs = ys := by
  induction ys generalizing zs with
  | nil =>
    cases h
    rfl
  | cons y ys ih =>
    cases h with
    | right h => rw [ih h]

theorem symm (h : Interleaving xs ys zs) : Interleaving ys xs zs := by
  induction h with
  | nil => exact .nil
  | left _ ih => exact .right ih
  | right _ ih => exact .left ih

theorem eq_left (h : Interleaving xs [] zs) : zs = xs := h.symm.eq_right

theorem mem_iff (h : Interleaving xs ys zs) {z : α} : z ∈ zs ↔ z ∈ xs ∨ z ∈ ys := by
  induction h with
  | nil => simp
  | left _ ih => rw [List.mem_cons, List.mem_cons, ih, or_assoc]
  | right _ ih => rw [List.mem_cons, List.mem_cons, ih, or_left_comm]

/-- Of two pairs, both first members come before some second member. At most one second member stands
    before them, and that is the one of its pair. -/
theorem of_pairs {x x' y y' : α} (h : Interleaving [x, x'] [y, y'] zs) :
    ∃ pre post, zs = pre ++ post ∧ (pre = [x, y] ∨ pre = [x, x', y] ∨ pre = [y, x] ∨ pre = [y, y', x]) ∧
      post ≠ [] ∧ ∀ z ∈ post, z = x' ∨ z = y' := by
  have later : ∀ {post : List α}, Interleaving [x'] [y'] post → post ≠ [] ∧ ∀ z ∈ post, z = x' ∨ z = y' := by
    intro post hpost
    constructor
    · exact List.ne_nil_of_mem (hpost.mem_iff.mpr (Or.inl List.mem_cons_self))
    · intro z hz
      simpa using hpost.mem_iff.mp hz
  -- Two members of one pair in front leave the other pair whole, one of each leaves two second members.
  cases h with
  | left h =>
    cases h with
    | left h =>
      rw [h.eq_right]
      exact ⟨[x, x', y], [y'], rfl, by simp, by simp, by simp⟩
    | right h => exact ⟨[x, y], _, rfl, by simp, later h⟩
  | right h =>
    cases h with
    | left h => exact ⟨[y, x], _, rfl, by simp, later h⟩
    | right h =>
      rw [h.eq_left]
      exact ⟨[y, y', x], [x'], rfl, by simp, by simp, by simp⟩

end Interleaving

namespace Run

def move (r : Run) : Transition → Run
  | .enter call x => r.step (.edit (r.service.calls.setState call x))
  | .report call before after => r.step (.message (.event (.stateChanged call before after)))

def moves (r : Run) (ts : List Transition) : Run := ts.foldl move r

theorem moves_append (r : Run) (xs ys : List Transition) : r.moves (xs ++ ys) = (r.moves xs).moves ys :=
  List.foldl_append

/-- How far a run has come from `r`: the calls and the memory it has now, and what the headset heard on
    the way. -/
structure Reaches (r r' : Run) (t : CallTable) (m : Debounce) (told : List Delivery) : Prop where
  service : r'.service = { r.service with calls := t, memory := m }
  wire : wire r'.past = wire r.past ++ told

namespace Reaches
variable {r r' : Run} {t : CallTable} {m : Debounce} {told : List Delivery} {call : CallId} {x y : CallState}

theorem refl (r : Run) : Reaches r r r.service.calls r.service.memory [] :=
  ⟨rfl, (List.append_nil _).symm⟩

theorem enter (h : Reaches r r' t m told) : Reaches r (r'.move (.enter call x)) (t.setState call x) m told := by
  refine ⟨?_, ?_⟩
  · change { r'.service with calls := r'.service.calls.setState call x } = _
    rw [h.service]
  · rw [← h.wire]
    exact (wire_cons_of_none rfl).trans (List.append_nil _)

theorem heldBack (h : Reaches r r' t m told)
    (hno : ¬((CallEvent.stateChanged call x y).matters t = true ∧ m.accepts t = true)) :
    Reaches r (r'.move (.report call x y)) t m told := by
  have hsilent : r'.service.onEvent (.stateChanged call x y) = (r'.service, []) := by
    apply Service.onEvent_of_not_accepts
    rw [h.service]
    exact fun hacc => hno hacc.2
  refine ⟨(congrArg Prod.fst hsilent).trans h.service, ?_⟩
  rw [move, wire_step_event, hsilent]
  exact (List.append_nil _).trans h.wire

theorem tell (h : Reaches r r' t m told) (hheadset : r.service.headset = true)
    (hmatters : (CallEvent.stateChanged call x y).matters t = true) (haccepts : m.accepts t = true) :
    Reaches r (r'.move (.report call x y)) t (.sent t) (told ++ [⟨PhoneState.ofCalls t, t⟩]) := by
  have htold : r'.service.onEvent (.stateChanged call x y) =
      ({ r.service with calls := t, memory := .sent t }, [.notice (.phoneState (PhoneState.ofCalls t))]) := by
    rw [h.service]
    exact Service.onEvent_of_accepts _ ⟨hheadset, hmatters, haccepts⟩
  refine ⟨congrArg Prod.fst htold, ?_⟩
  rw [move, wire_step_event, htold, h.service, h.wire, List.append_assoc]
  rfl

/-- What was told of the calls is not told again by any further reports. -/
theorem again {ts : List Transition} (h : Reaches r r' t (.sent t) told)
    (hts : ∀ z ∈ ts, ∃ call x y, z = .report call x y) : Reaches r (r'.moves ts) t (.sent t) told := by
  induction ts generalizing r' with
  | nil => exact h
  | cons z ts ih =>
    rw [List.forall_mem_cons] at hts
    obtain ⟨⟨call, x, y, rfl⟩, hts⟩ := hts
    -- The memory is that of the calls themselves, so they are no news.
    have hsame : ¬(Debounce.sent t).accepts t = true := Debounce.not_accepts_sent rfl rfl
    exact ih (h.heldBack fun hno => hsame hno.2) hts

/-- Of reports that matter and are news, the first is told and no other. -/
theorem tellOnce {ts : List Transition} (h : Reaches r r' t m told) (hheadset : r.service.headset = true)
    (haccepts : m.accepts t = true) (hne : ts ≠ [])
    (hts : ∀ z ∈ ts, ∃ call x y, z = .report call x y ∧ (CallEvent.stateChanged call x y).matters t = true) :
    Reaches r (r'.moves ts) t (.sent t) (told ++ [⟨PhoneState.ofCalls t, t⟩]) := by
  obtain ⟨z, ts, rfl⟩ := List.exists_cons_of_ne_nil hne
  rw [List.forall_mem_cons] at hts
  obtain ⟨⟨call, x, y, rfl, hmatters⟩, hts⟩ := hts
  refine (h.tell hheadset hmatters haccepts).again fun z hz => ?_
  obtain ⟨call, x, y, rfl, -⟩ := hts z hz
  exact ⟨call, x, y, rfl⟩

end Reaches

end Run

end HandsFree

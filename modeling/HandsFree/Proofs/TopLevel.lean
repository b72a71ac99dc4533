import HandsFree.PhoneState
import HandsFree.Proofs.CallHold

/-! What the legs of conferences do not decide. The parts of calls, the phone state and the operations of a
    hold command are the same in the table without its legs, so two tables with the same calls at top
    level have them in common, whatever their legs are. In particular no look-up by id finds a leg in
    the place of the call that plays a part, and the conference to swap is never a parent. -/

namespace HandsFree
namespace CallTable
variable {t : CallTable}

/-- The calls at top level, in the order of the table. -/
def topLevel (t : CallTable) : CallTable := ⟨t.calls.filter Call.isTopLevel⟩

theorem UniqueIds.topLevel (hu : t.UniqueIds) : t.topLevel.UniqueIds := (List.filter_sublist.map Call.id).nodup hu

theorem find?_topLevel (t : CallTable) (p : Call → Bool) :
    (t.topLevel.calls.find? fun c => c.isTopLevel && p c) = t.calls.find? fun c => c.isTopLevel && p c := by
  refine find?_filter_of_imp (fun c hc => ?_) t.calls
  exact ((Bool.and_eq_true _ _).mp hc).1

theorem firstTopLevel?_topLevel (t : CallTable) (p : Call → Bool) :
    t.topLevel.firstTopLevel? p = t.firstTopLevel? p :=
  congrArg (Option.map Call.id) (find?_topLevel t p)

/-- The record of the call that plays a part is a record at top level. -/
theorem UniqueIds.bind_get?_topLevel (hu : t.UniqueIds) (p : Call → Bool) :
    (t.topLevel.firstTopLevel? p).bind t.topLevel.get? = (t.firstTopLevel? p).bind t.get? := by
  rw [hu.topLevel.bind_get?_firstTopLevel?, hu.bind_get?_firstTopLevel?, find?_topLevel]

theorem active?_topLevel (t : CallTable) : t.topLevel.active? = t.active? := firstTopLevel?_topLevel t _

theorem ringing?_topLevel (t : CallTable) : t.topLevel.ringing? = t.ringing? := firstTopLevel?_topLevel t _

theorem held?_topLevel (t : CallTable) : t.topLevel.held? = t.held? := firstTopLevel?_topLevel t _

theorem outgoing?_topLevel (t : CallTable) : t.topLevel.outgoing? = t.outgoing? := firstTopLevel?_topLevel t _

theorem foreground?_topLevel (t : CallTable) : t.topLevel.foreground? = t.foreground? := by
  rw [foreground?, active?_topLevel, held?_topLevel, ringing?_topLevel, outgoing?_topLevel]
  rfl

theorem heldCount_topLevel (t : CallTable) : t.topLevel.heldCount = t.heldCount := by
  rw [heldCount, countInState, topLevel, List.countP_filter]
  refine List.countP_congr fun c _ => ?_
  cases c.isTopLevel <;> simp

end CallTable

/-! ### The phone state -/

namespace PhoneState
open CallTable
variable {t : CallTable}

theorem ofCalls_topLevel (hu : t.UniqueIds) : ofCalls t.topLevel = ofCalls t := by
  have hactive : t.topLevel.activeCall? = t.activeCall? := hu.bind_get?_topLevel _
  have hringing : t.topLevel.ringingCall? = t.ringingCall? := hu.bind_get?_topLevel _
  have houtgoing : t.topLevel.outgoingCall? = t.outgoingCall? := hu.bind_get?_topLevel _
  simp only [ofCalls, lineState, caller?, hactive, hringing, houtgoing, heldCount_topLevel]

end PhoneState

/-! ### Hold commands -/

namespace CallHold
open CallTable
variable {t : CallTable} {c : Call}

theorem setAside_topLevel (hu : t.UniqueIds) (hc : t.activeCall? = some c) :
    setAside t.topLevel c = setAside t c := by
  have hc' : t.topLevel.activeCall? = some c := (hu.bind_get?_topLevel _).trans hc
  rw [setAside, setAside, swappable?_eq hu.topLevel hc', swappable?_eq hu hc]

theorem accept_topLevel (t : CallTable) : accept t.topLevel = accept t := by
  rw [accept, accept, ringing?_topLevel, held?_topLevel]

theorem operations_topLevel (hu : t.UniqueIds) (k : CallHold) : k.operations t.topLevel = k.operations t := by
  have hactive : t.topLevel.activeCall? = t.activeCall? := hu.bind_get?_topLevel _
  cases k with
  | releaseHeld => simp only [operations, ringing?_topLevel, held?_topLevel]
  | releaseActive => simp only [operations, active?_topLevel, accept_topLevel]
  | holdActive =>
    rw [operations_holdActive, operations_holdActive, accept_topLevel, hactive]
    cases hc : t.activeCall? with
    | none => rfl
    | some c => rw [Option.map_some, Option.map_some, setAside_topLevel hu hc]
  | addHeld => simp only [operations, hactive]

end CallHold

namespace CallTable

/-- Whatever the legs of two tables with the same calls at top level are, the tables have the same phone
    state, the same call for every part, as many held calls and the same operations for every hold
    command; and where legs are to be swapped, they are those of the active call. -/
theorem unaffected_by_legs {t u : CallTable} (ht : t.UniqueIds) (hu : u.UniqueIds) (h : t.topLevel = u.topLevel) :
    PhoneState.ofCalls t = PhoneState.ofCalls u ∧
    t.foreground? = u.foreground? ∧ t.active? = u.active? ∧ t.ringing? = u.ringing? ∧ t.held? = u.held? ∧
    t.outgoing? = u.outgoing? ∧ t.heldCount = u.heldCount ∧
    (∀ k : CallHold, k.operations t = k.operations u) ∧
    ∀ (k : CallHold) (id : CallId), .swap id ∈ k.operations t → t.active? = some id := by
  refine ⟨?_, ?_, ?_, ?_, ?_, ?_, ?_, fun k => ?_, fun k id => CallHold.active?_of_swap_mem ht⟩
  · rw [← PhoneState.ofCalls_topLevel ht, h, PhoneState.ofCalls_topLevel hu]
  · rw [← foreground?_topLevel t, h, foreground?_topLevel]
  · rw [← active?_topLevel t, h, active?_topLevel]
  · rw [← ringing?_topLevel t, h, ringing?_topLevel]
  · rw [← held?_topLevel t, h, held?_topLevel]
  · rw [← outgoing?_topLevel t, h, outgoing?_topLevel]
  · rw [← heldCount_topLevel t, h, heldCount_topLevel]
  · rw [← CallHold.operations_topLevel ht, h, CallHold.operations_topLevel hu]

/-- An active conference that can swap its legs, among the given legs. -/
def amongLegs (before after : List Call) : CallTable :=
  let conference : Call :=
    { id := ⟨1⟩, state := .active, capabilities := { swap := true }, isConference := true,
      children := [⟨2⟩, ⟨3⟩] }
  ⟨before ++ conference :: after⟩

/-- Legs that ring, are on hold or belong to no known conference count as little as active ones. -/
theorem unaffected_by_legs_amongLegs :
    let t := amongLegs [] [{ id := ⟨2⟩, state := .active, parent := some ⟨1⟩ },
      { id := ⟨3⟩, state := .active, parent := some ⟨1⟩ }]
    let u := amongLegs [{ id := ⟨4⟩, state := .ringing, parent := some ⟨9⟩ }]
      [{ id := ⟨2⟩, state := .onHold, parent := some ⟨1⟩ }]
    t.UniqueIds ∧ u.UniqueIds ∧ t.topLevel = u.topLevel ∧ PhoneState.ofCalls t = PhoneState.ofCalls u ∧
    CallHold.holdActive.operations t = CallHold.holdActive.operations u ∧
    .swap ⟨1⟩ ∈ CallHold.holdActive.operations t ∧ t.active? = some ⟨1⟩ := by
  intro t u
  have ht : t.UniqueIds := by decide
  have hu : u.UniqueIds := by decide
  have h : t.topLevel = u.topLevel := by decide
  have hswap : .swap ⟨1⟩ ∈ CallHold.holdActive.operations t := by decide
  obtain ⟨hstate, -, -, -, -, -, -, hops, hactive⟩ := unaffected_by_legs ht hu h
  exact ⟨ht, hu, h, hstate, hops .holdActive, hswap, hactive .holdActive ⟨1⟩ hswap⟩

end CallTable

end HandsFree

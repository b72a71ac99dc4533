import HandsFree.Proofs.CallHold
import HandsFree.Proofs.CallTable.Parts
import HandsFree.Proofs.Debounce
import HandsFree.Proofs.PhoneState
import HandsFree.Proofs.Service.Run
import HandsFree.Proofs.Service.Status

/-! A swap of the legs of a conference. The conditions under which the hold command swaps are enough for the
    conference to report its second leg as a held call, so the headset always hears of one active and one
    held call. It hears it at once, whatever it was told before and even while the links are half written, and
    then the memory has it, so that no event tells it again. -/

namespace HandsFree
namespace CallHold
open CallTable
variable {t : CallTable} {c : Call} {id : CallId}

/-- The active call is a conference whose legs change places when it is set aside, and there is no other call
    to accept instead. -/
structure CanSwap (t : CallTable) (c : Call) : Prop where
  ringing : ¬t.HasTopLevel (· = .ringing)
  held : ¬t.HasTopLevel (· = .onHold)
  active : t.IsFirst (· = .active) c
  conference : c.isConference = true
  can : c.can .swap = true
  shown : c.can .noChildren = false
  unmerged : c.mergedBefore = false

theorem CanSwap.accept_eq_nil (h : CanSwap t c) : accept t = [] :=
  accept_eq_nil_iff.mpr ⟨firstInStates?_eq_none_iff.mpr h.ringing, firstInStates?_eq_none_iff.mpr h.held⟩

theorem CanSwap.swappable?_eq_id (h : CanSwap t c) (hu : t.UniqueIds) : swappable? t c = some c.id :=
  (swappable?_eq_some_iff hu (hu.activeCall?_eq_some_iff.mpr h.active)).mpr
    ⟨⟨h.conference, h.can, h.shown, h.unmerged⟩, rfl⟩

theorem swap_mem_holdActive_iff_canSwap (hu : t.UniqueIds) :
    Operation.swap id ∈ holdActive.operations t ↔ ∃ c, CanSwap t c ∧ c.id = id := by
  rw [swap_mem_holdActive_iff]
  constructor
  · rintro ⟨haccept, c, hc, hswap⟩
    obtain ⟨hringing, hheld⟩ := accept_eq_nil_iff.mp haccept
    obtain ⟨⟨hconf, hcan, hshown, hunmerged⟩, hid⟩ := (swappable?_eq_some_iff hu hc).mp hswap
    exact ⟨c, ⟨firstInStates?_eq_none_iff.mp hringing, firstInStates?_eq_none_iff.mp hheld,
      hu.activeCall?_eq_some_iff.mp hc, hconf, hcan, hshown, hunmerged⟩, hid⟩
  · rintro ⟨c, h, rfl⟩
    exact ⟨h.accept_eq_nil, c, hu.activeCall?_eq_some_iff.mpr h.active, h.swappable?_eq_id hu⟩

/-- The swap is all that the command comes to. -/
theorem CanSwap.operations_eq (h : CanSwap t c) (hu : t.UniqueIds) : holdActive.operations t = [.swap c.id] := by
  rw [operations_holdActive, if_pos h.accept_eq_nil, hu.activeCall?_eq_some_iff.mpr h.active, Option.map_some,
    Option.getD_some, setAside, h.swappable?_eq_id hu]

end CallHold

namespace PhoneState
open CallTable
variable {t : CallTable} {c : Call}

/-- The conference keeps one leg on hold. -/
theorem heldLegs?_of_canSwap (h : CallHold.CanSwap t c) : heldLegs? c = some 1 := by
  simp [heldLegs?, Call.exposesChildren, h.conference, h.shown, h.can, h.unmerged]

theorem ofCalls_of_canSwap (hu : t.UniqueIds) (h : CallHold.CanSwap t c) :
    ofCalls t = ⟨1, 1, lineState t, "", noNumberType⟩ := by
  simp [ofCalls, caller?_of_not_ringing h.ringing, hu.activeCall?_eq_some_iff.mpr h.active, heldLegs?_of_canSwap h]

end PhoneState

namespace Service
open CallTable CallHold
variable {s : Service} {c : Call}

theorem ofCode_two : CallHold.ofCode 2 = .ok holdActive := rfl

/-- The call manager is asked to swap, and the headset hears the phone state. -/
theorem handle_of_canSwap (hh : s.headset = true) (hu : s.calls.UniqueIds) (h : CanSwap s.calls c) :
    s.handle (.callHold 2) = ⟨{ s with memory := .sent s.calls }, .status true,
      [.request (.swap c.id), .notice (.phoneState (PhoneState.ofCalls s.calls))]⟩ := by
  have hasked : s.requests (.callHold 2) = [.swap c.id] := by
    rw [requests_callHold ofCode_two, h.operations_eq hu]
    rfl
  have hends := ends_callHold s 2
  rw [hasked] at hends
  rw [handle, hends.eq_of_swap (List.mem_singleton_self _), announce, if_pos hh]
  rfl

/-- With a headset attached, the hold command swaps the legs of a conference if and only if no call rings or is
    on hold and the active call is a conference that can swap its legs, shows them and was not merged before.
    Then the swap is all that the call manager is asked for, and the headset hears one phone state: one active
    and one held call, no number, and a state that the outgoing call alone decides. No event that comes next
    tells it anything while the calls stay as they are. -/
theorem swap_announced (hh : s.headset = true) (hu : s.calls.UniqueIds) :
    let told := s.handle (.callHold 2)
    ((∃ id, .swap id ∈ requested told.outputs) ↔ ∃ c, CanSwap s.calls c) ∧
    ∀ c, CanSwap s.calls c →
      (∃ state, told.outputs = [.request (.swap c.id), .notice (.phoneState ⟨1, 1, state, "", 128⟩)] ∧
        (¬s.calls.HasTopLevel (fun x => x.isOutgoing = true) → state = .idle) ∧
        ∀ o, s.calls.IsFirst (fun x => x.isOutgoing = true) o →
          state = if o.state = .dialing then .alerting else .dialing) ∧
      told.service.calls = s.calls ∧ ∀ e, told.service.onEvent e = (told.service, []) := by
  intro told
  refine ⟨?_, fun c h => ⟨⟨PhoneState.lineState s.calls, ?_, fun ho => ?_, fun o ho => ?_⟩, ?_, fun e => ?_⟩⟩
  · rw [requested_handle]
    simp only [swap_mem_requests_iff ofCode_two, swap_mem_holdActive_iff_canSwap hu]
    constructor
    · rintro ⟨id, c, h, -⟩
      exact ⟨c, h⟩
    · rintro ⟨c, h⟩
      exact ⟨c.id, c, h, rfl⟩
  · have hstate := PhoneState.ofCalls_of_canSwap hu h
    change (s.handle (.callHold 2)).outputs = _
    rw [handle_of_canSwap hh hu h, hstate]
    rfl
  · exact PhoneState.state_ofCalls_eq_idle_iff.mpr ⟨ho, h.ringing⟩
  · exact PhoneState.lineState_of_outgoingCall? h.ringing (hu.outgoingCall?_eq_some_iff.mpr ho)
  · exact calls_handle s _
  · have hafter : told.service = { s with memory := .sent s.calls } :=
      congrArg Outcome.service (handle_of_canSwap hh hu h)
    rw [hafter]
    exact onEvent_of_not_accepts _ fun ⟨_, _, ha⟩ => Debounce.not_accepts_sent rfl rfl ha

/-- A conference whose legs can change places. It lists a leg that has no record. -/
def swapping : Call :=
  { id := ⟨1⟩, state := .active, isConference := true, capabilities := { swap := true }, children := [⟨7⟩] }

/-- The headset knows of the conference and of the call that is dialing. -/
def swappingWhileDialing : Service :=
  let calls : CallTable := ⟨[swapping, { id := ⟨2⟩, state := .dialing }]⟩
  { calls, headset := true, memory := .sent calls }

theorem swap_announced_whileDialing :
    let s := swappingWhileDialing
    s.headset = true ∧ s.calls.UniqueIds ∧ s.calls.isSettled = false ∧ CanSwap s.calls swapping ∧
    (s.handle (.callHold 2)).outputs = [.request (.swap ⟨1⟩), .notice (.phoneState ⟨1, 1, .alerting, "", 128⟩)] := by
  intro s
  have hu : s.calls.UniqueIds := by decide
  have hactive : s.calls.IsFirst (· = .active) swapping := ⟨rfl, rfl, [], _, rfl, List.forall_mem_nil _⟩
  have h : CanSwap s.calls swapping := ⟨by decide, by decide, hactive, rfl, rfl, rfl, rfl⟩
  have houtgoing : s.calls.IsFirst (fun x => x.isOutgoing = true) { id := ⟨2⟩, state := .dialing } :=
    ⟨rfl, rfl, [swapping], [], rfl, by decide⟩
  obtain ⟨-, htold⟩ := swap_announced (s := s) rfl hu
  obtain ⟨⟨state, houtputs, -, hstate⟩, -⟩ := htold swapping h
  rw [hstate _ houtgoing] at houtputs
  exact ⟨rfl, hu, by decide, h, houtputs⟩

end Service
end HandsFree

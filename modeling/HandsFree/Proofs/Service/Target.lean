import HandsFree.Proofs.CallHold
import HandsFree.Proofs.CallTable.Parts
import HandsFree.Proofs.PhoneState
import HandsFree.Proofs.Service.Status
import Mathlib.Algebra.Ring.Nat

/-! The target of single-call commands and the phone state of a phone without calls. The one is found by four
    searches in the order of their rank, the other is put together from four fields; both tell whether some
    call at top level is active, on hold, ringing or outgoing. A conference that hides a held leg does so
    only while it is active itself, so no held call goes unseen behind it. -/

namespace HandsFree
namespace PhoneState
open CallTable
variable {t : CallTable}

theorem ofCalls_of_quiet (h : t.Quiet) : ofCalls t = idle := by
  have hactive : t.activeCall? = none := activeCall?_eq_none_iff.mpr h.active
  have hringing : t.ringingCall? = none := ringingCall?_eq_none_iff.mpr h.ringing
  have houtgoing : t.outgoingCall? = none := outgoingCall?_eq_none_iff.mpr h.outgoing
  have hcount : t.heldCount = 0 := by
    have hpos := h.held
    rw [← heldCount_pos_iff] at hpos
    omega
  simp [ofCalls, lineState, caller?, idle, hactive, hringing, houtgoing, hcount]

theorem quiet_of_ofCalls (hlen : t.calls.length < UInt32.size) (h : ofCalls t = idle) : t.Quiet := by
  have hactive : ¬t.HasTopLevel (· = .active) := by
    rw [← numActive_ofCalls_eq_one_iff, h]
    decide
  have hstate : (ofCalls t).state = .idle := by
    rw [h]
    rfl
  obtain ⟨houtgoing, hringing⟩ := state_ofCalls_eq_idle_iff.mp hstate
  have hlegs : t.activeCall?.bind heldLegs? = none := by
    rw [activeCall?_eq_none_iff.mpr hactive]
    rfl
  have hheld : ¬t.HasTopLevel (· = .onHold) := by
    rw [← numHeld_ofCalls_pos_iff (Nat.lt_of_le_of_lt heldCount_le_length hlen) hlegs, h]
    decide
  exact ⟨hactive, hheld, hringing, houtgoing⟩

theorem ofCalls_eq_idle_iff (hlen : t.calls.length < UInt32.size) : ofCalls t = idle ↔ t.foreground? = none := by
  rw [foreground?_eq_none_iff]
  exact ⟨quiet_of_ofCalls hlen, ofCalls_of_quiet⟩

end PhoneState

namespace CallHold
open CallTable
variable {t : CallTable}

/-- No hold command applies to a table without a target. -/
theorem operations_of_foreground?_eq_none (h : t.foreground? = none) (k : CallHold) : k.operations t = [] := by
  have hq := foreground?_eq_none_iff.mp h
  have hactive : t.active? = none := firstInStates?_eq_none_iff.mpr hq.active
  have hringing : t.ringing? = none := firstInStates?_eq_none_iff.mpr hq.ringing
  have hheld : t.held? = none := firstInStates?_eq_none_iff.mpr hq.held
  have haccept : accept t = [] := accept_eq_nil_iff.mpr ⟨hringing, hheld⟩
  have hcall : t.activeCall? = none := by rw [activeCall?, hactive, Option.bind_none]
  cases k with
  | releaseHeld => rw [operations, hringing, hheld]
  | releaseActive => rw [operations, hactive, haccept, Option.map_none, Option.toList_none, List.append_nil]
  | holdActive => rw [operations_holdActive, if_pos haccept, hcall, Option.map_none, Option.getD_none]
  | addHeld => rw [operations, hcall, Option.map_none, Option.getD_none]

end CallHold

namespace Service
variable {s : Service}

theorem not_applies_hangUp_iff : ¬s.Applies .hangUp ↔ s.calls.foreground? = none := by
  rw [Applies, not_exists, Option.eq_none_iff_forall_ne_some]

/-- A digit has a tone, so some tone is played if there is a call to play it on. -/
theorem not_applies_sendTone_iff : (∀ code, ¬s.Applies (.sendTone code)) ↔ s.calls.foreground? = none := by
  rw [← not_applies_hangUp_iff]
  constructor
  · intro h hcall
    exact h 48 ⟨hcall, '0', rfl⟩
  · rintro h code ⟨hcall, -⟩
    exact h hcall

theorem not_applies_callHold (h : s.calls.foreground? = none) (code : Int32) : ¬s.Applies (.callHold code) := by
  rintro ⟨hold, -, hsome⟩
  exact hsome (CallHold.operations_of_foreground?_eq_none h hold)

/-- The phone state is that of a phone without calls if and only if no call is the target of single-call
    commands, whatever the ids and links. This shows in the answers: hanging up fails, and so does every
    tone. No hold command applies to such calls either. -/
theorem idle_iff_no_target (s : Service) (hlen : s.calls.calls.length < 2 ^ 32) :
    (PhoneState.ofCalls s.calls = .idle ↔ s.calls.foreground? = none) ∧
    (PhoneState.ofCalls s.calls = .idle ↔ (s.handle .hangUp).response = .status false) ∧
    (PhoneState.ofCalls s.calls = .idle ↔ ∀ code, (s.handle (.sendTone code)).response = .status false) ∧
    (PhoneState.ofCalls s.calls = .idle → ∀ code, (s.handle (.callHold code)).response = .status false) := by
  have hidle := PhoneState.ofCalls_eq_idle_iff hlen
  refine ⟨hidle, ?_, ?_, fun h code => ?_⟩
  · rw [failed_iff, not_applies_hangUp_iff, hidle]
  · simp only [failed_iff]
    rw [not_applies_sendTone_iff, hidle]
  · rw [failed_iff]
    exact not_applies_callHold (hidle.mp h) code

/-- Three records share an id, and the first of them is a leg of no known conference. -/
def sharedId (state : CallState) : Service :=
  { calls := ⟨[{ id := ⟨1⟩, state := .active, parent := some ⟨9⟩ }, { id := ⟨1⟩, state := .disconnected },
      { id := ⟨1⟩, state }]⟩ }

theorem idle_iff_no_target_sharedId :
    (∀ x, (sharedId x).calls.calls.length < 2 ^ 32) ∧
    PhoneState.ofCalls (sharedId .aborted).calls = .idle ∧
    ((sharedId .aborted).handle (.callHold 1)).response = .status false ∧
    ((sharedId .onHold).handle .hangUp).response = .status true ∧
    PhoneState.ofCalls (sharedId .onHold).calls ≠ .idle := by
  have hlen : ∀ x, (sharedId x).calls.calls.length < 2 ^ 32 := fun _ => by
    change 3 < 2 ^ 32
    omega
  obtain ⟨hquiet, -, -, hhold⟩ := idle_iff_no_target (sharedId .aborted) (hlen _)
  obtain ⟨-, hhang, -⟩ := idle_iff_no_target (sharedId .onHold) (hlen _)
  have hidle : PhoneState.ofCalls (sharedId .aborted).calls = .idle := hquiet.mpr rfl
  have hheld : ((sharedId .onHold).handle .hangUp).response = .status true := rfl
  refine ⟨hlen, hidle, hhold hidle 1, hheld, fun h => ?_⟩
  rw [hhang.mp h] at hheld
  cases hheld

end Service
end HandsFree

import HandsFree.PhoneState
import HandsFree.Proofs.CallTable.Lookup

/-! The phone state, field by field, in terms of the calls at top level. The counts and the state hold of
    every table; only a count of held calls needs a bound, since it is sent in 32 bits. -/

namespace HandsFree.PhoneState
open CallTable
variable {t : CallTable}

theorem numActive_ofCalls_eq_one_iff : (ofCalls t).numActive = 1 ↔ t.HasTopLevel (· = .active) := by
  rw [← isSome_activeCall?_iff]
  cases h : t.activeCall?.isSome <;> simp [ofCalls, h]

theorem one_le_numActive_ofCalls_iff : 1 ≤ (ofCalls t).numActive ↔ t.HasTopLevel (· = .active) := by
  rw [← isSome_activeCall?_iff]
  cases h : t.activeCall?.isSome <;> simp [ofCalls, h]

/-! ### The state -/

/-- The three ways in which the state of the phone comes about. -/
theorem lineState_cases (t : CallTable) :
    (t.HasTopLevel (· = .ringing) ∧ lineState t = .incoming) ∨
    (¬t.HasTopLevel (· = .ringing) ∧ t.HasTopLevel (fun x => x.isOutgoing = true) ∧
      (lineState t = .dialing ∨ lineState t = .alerting)) ∨
    (¬t.HasTopLevel (· = .ringing) ∧ ¬t.HasTopLevel (fun x => x.isOutgoing = true) ∧ lineState t = .idle) := by
  rw [← isSome_ringingCall?_iff, ← isSome_outgoingCall?_iff]
  unfold lineState
  cases hr : t.ringingCall? with
  | some r => exact Or.inl ⟨rfl, rfl⟩
  | none =>
    cases ho : t.outgoingCall? with
    | none => exact Or.inr (Or.inr ⟨by simp, by simp, rfl⟩)
    | some o =>
      refine Or.inr (Or.inl ⟨by simp, rfl, ?_⟩)
      by_cases hd : o.state = .dialing
      · exact Or.inr (if_pos hd)
      · exact Or.inl (if_neg hd)

theorem lineState_of_outgoingCall? {c : Call} (hringing : ¬t.HasTopLevel (· = .ringing)) (hc : t.outgoingCall? = some c) :
    lineState t = if c.state = .dialing then .alerting else .dialing := by
  rw [lineState, ringingCall?_eq_none_iff.mpr hringing, hc]

theorem caller?_of_not_ringing (hringing : ¬t.HasTopLevel (· = .ringing)) : caller? t = none := by
  rw [caller?, ringingCall?_eq_none_iff.mpr hringing, Option.bind_none]

theorem state_ofCalls_eq_incoming_iff : (ofCalls t).state = .incoming ↔ t.HasTopLevel (· = .ringing) := by
  rcases lineState_cases t with ⟨hr, hs⟩ | ⟨hr, -, hs | hs⟩ | ⟨hr, -, hs⟩ <;> simp [ofCalls, hr, hs]

theorem state_ofCalls_outgoing_iff : ((ofCalls t).state = .dialing ∨ (ofCalls t).state = .alerting) ↔
    t.HasTopLevel (fun x => x.isOutgoing = true) ∧ ¬t.HasTopLevel (· = .ringing) := by
  rcases lineState_cases t with ⟨hr, hs⟩ | ⟨hr, ho, hs | hs⟩ | ⟨hr, ho, hs⟩
  · simp [ofCalls, hr, hs]
  · simp [ofCalls, hr, ho, hs]
  · simp [ofCalls, hr, ho, hs]
  · simp [ofCalls, ho, hs]

theorem state_ofCalls_eq_idle_iff : (ofCalls t).state = .idle ↔
    ¬t.HasTopLevel (fun x => x.isOutgoing = true) ∧ ¬t.HasTopLevel (· = .ringing) := by
  rcases lineState_cases t with ⟨hr, hs⟩ | ⟨hr, ho, hs | hs⟩ | ⟨hr, ho, hs⟩
  · simp [ofCalls, hr, hs]
  · simp [ofCalls, ho, hs]
  · simp [ofCalls, ho, hs]
  · simp [ofCalls, hr, ho, hs]

/-! ### Held calls -/

theorem ofNat_pos_iff {n : Nat} (hn : n < UInt32.size) : 0 < UInt32.ofNat n ↔ 0 < n := by
  rw [UInt32.lt_iff_toNat_lt, UInt32.toNat_ofNat_of_lt' hn]
  exact Iff.rfl

/-- Where the active call keeps nothing on hold inside itself, the held calls are counted. -/
theorem numHeld_ofCalls_pos_iff (hcount : t.heldCount < UInt32.size) (hlegs : t.activeCall?.bind heldLegs? = none) :
    0 < (ofCalls t).numHeld ↔ t.HasTopLevel (· = .onHold) := by
  simp only [ofCalls, hlegs, Option.getD_none]
  rw [ofNat_pos_iff hcount, heldCount_pos_iff]

theorem numHeld_ofCalls_of_heldLegs {p : Call} {n : UInt32} (hp : t.activeCall? = some p)
    (hn : heldLegs? p = some n) : (ofCalls t).numHeld = n := by
  simp [ofCalls, hp, hn]

/-- The phone state while a call is dialing, and none is active or rings. -/
theorem ofCalls_of_dialing {c : Call} (hactive : ¬t.HasTopLevel (· = .active))
    (hringing : ¬t.HasTopLevel (· = .ringing)) (hout : t.outgoingCall? = some c) (hc : c.state = .dialing) :
    ofCalls t = ⟨0, UInt32.ofNat t.heldCount, .alerting, "", noNumberType⟩ := by
  simp [ofCalls, lineState_of_outgoingCall? hringing hout, caller?_of_not_ringing hringing,
    activeCall?_eq_none_iff.mpr hactive, hc]

end HandsFree.PhoneState

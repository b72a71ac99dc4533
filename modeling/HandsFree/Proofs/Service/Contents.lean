import HandsFree.Proofs.CallTable.Parts
import HandsFree.Proofs.PhoneState
import HandsFree.Proofs.Service.Wire

/-! What a phone state says. The call that rings gives both the state and the number, and a conference in the
    foreground speaks for the held calls. Whatever is sent in a run, asked for or not, says it of the calls of that
    moment. -/

namespace HandsFree
namespace PhoneState
open CallTable
variable {t : CallTable} {p : PhoneState} {c : Call}

/-- A conference that can swap or merge the legs it shows. -/
def HoldsLegs (c : Call) : Prop := c.exposesChildren = true ∧ (c.can .swap = true ∨ c.can .merge = true)

/-- The fields of the phone state fit the calls. Of several calls that are active or ring, the first one at top
    level counts. -/
structure Describes (t : CallTable) (p : PhoneState) : Prop where
  numActive : p.numActive = 0 ∨ p.numActive = 1
  active : p.numActive = 1 ↔ t.HasTopLevel (· = .active)
  state : p.state = .incoming ∨ p.state = .dialing ∨ p.state = .alerting ∨ p.state = .idle
  incoming : p.state = .incoming ↔ t.HasTopLevel (· = .ringing)
  caller : ∀ c address, t.IsFirst (· = .ringing) c → c.handle = some address →
    p.number = Address.schemeSpecificPart address ∧ p.numberType = if p.number.toList.head? = some '+' then 145 else 129
  noCaller : (∀ c, t.IsFirst (· = .ringing) c → c.handle = none) → p.number = "" ∧ p.numberType = 128
  heldLegs : ∀ c, t.IsFirst (· = .active) c → HoldsLegs c →
    p.numHeld = if c.can .swap = true ∧ c.mergedBefore = true then 0 else 1
  heldCalls : (∀ c, t.IsFirst (· = .active) c → ¬HoldsLegs c) → t.calls.length < UInt32.size →
    p.numHeld.toNat = t.calls.countP fun c => c.parent.isNone && c.state == .onHold

theorem heldLegs?_of_holdsLegs (h : HoldsLegs c) :
    heldLegs? c = some (if c.can .swap = true ∧ c.mergedBefore = true then 0 else 1) := by
  obtain ⟨hexposes, hcan⟩ := h
  cases hswap : c.can .swap with
  | true => cases hmerged : c.mergedBefore <;> simp [heldLegs?, hexposes, hswap, hmerged]
  | false =>
    have hmerge : c.can .merge = true := by simpa [hswap] using hcan
    simp [heldLegs?, hexposes, hswap, hmerge]

theorem heldLegs?_of_not_holdsLegs (h : ¬HoldsLegs c) : heldLegs? c = none := by
  cases hexposes : c.exposesChildren with
  | false => simp [heldLegs?, hexposes]
  | true =>
    have hcan : c.can .swap = false ∧ c.can .merge = false := by simpa [HoldsLegs, hexposes] using h
    simp [heldLegs?, hexposes, hcan]

theorem caller?_of_isFirst (hu : t.UniqueIds) (hc : t.IsFirst (· = .ringing) c) : caller? t = c.handleNumber := by
  rw [caller?, hu.ringingCall?_eq_some_iff.mpr hc, Option.bind_some]

theorem caller?_eq_none (hu : t.UniqueIds) (h : ∀ c, t.IsFirst (· = .ringing) c → c.handle = none) :
    caller? t = none := by
  cases hr : t.ringingCall? with
  | none => rw [caller?, hr, Option.bind_none]
  | some c =>
    have hc := hu.ringingCall?_eq_some_iff.mp hr
    rw [caller?_of_isFirst hu hc, Call.handleNumber, h c hc, Option.map_none]

/-- Where the active call hides no held leg, the held calls at top level are counted. -/
theorem numHeld_ofCalls_of_not_holdsLegs (hu : t.UniqueIds) (h : ∀ c, t.IsFirst (· = .active) c → ¬HoldsLegs c)
    (hlen : t.calls.length < UInt32.size) : (ofCalls t).numHeld.toNat = t.heldCount := by
  have hlegs : t.activeCall?.bind PhoneState.heldLegs? = none := by
    cases ha : t.activeCall? with
    | none => rfl
    | some c => exact heldLegs?_of_not_holdsLegs (h c (hu.activeCall?_eq_some_iff.mp ha))
  have hcount : t.heldCount < UInt32.size := Nat.lt_of_le_of_lt heldCount_le_length hlen
  simp only [ofCalls, hlegs, Option.getD_none]
  exact UInt32.toNat_ofNat_of_lt' hcount

theorem describes_ofCalls (hu : t.UniqueIds) : Describes t (ofCalls t) where
  numActive := by
    simp only [ofCalls]
    split <;> simp
  active := numActive_ofCalls_eq_one_iff
  state := by
    rcases lineState_cases t with ⟨-, hs⟩ | ⟨-, -, hs | hs⟩ | ⟨-, -, hs⟩ <;> simp [ofCalls, hs]
  incoming := state_ofCalls_eq_incoming_iff
  caller c address hc haddress := by
    have hcaller : caller? t = some (Address.schemeSpecificPart address) := by
      rw [caller?_of_isFirst hu hc, Call.handleNumber, haddress, Option.map_some]
    simp [ofCalls, hcaller, Address.numberType, Address.internationalType, Address.unknownType]
  noCaller h := by simp [ofCalls, caller?_eq_none hu h, noNumberType]
  heldLegs c hc hlegs :=
    numHeld_ofCalls_of_heldLegs (hu.activeCall?_eq_some_iff.mpr hc) (heldLegs?_of_holdsLegs hlegs)
  heldCalls h hlen := numHeld_ofCalls_of_not_holdsLegs hu h hlen

end PhoneState

/-- Every phone state that is sent in a run, whatever led to it, goes to an attached headset and describes the calls
    of that moment, as long as their ids differ. -/
theorem sent_describes (calls : CallTable) (registry : Registry) (config : Config) (as : List Action) :
    ∀ x ∈ ((Run.start calls registry config).after as).past, ∀ p ∈ phoneStates x.outputs,
      x.before.headset = true ∧ (x.before.calls.UniqueIds → PhoneState.Describes x.before.calls p) := by
  intro x hx p hp
  have hinStep : InStep ((Run.start calls registry config).after as) := InStep.after calls registry config as
  obtain ⟨hheadset, rfl⟩ := hinStep.sent x hx p hp
  exact ⟨hheadset, PhoneState.describes_ofCalls⟩

/-- A conference whose legs were merged before, and behind it a call that a gateway placed. -/
def mergedAndKnocked : CallTable :=
  ⟨[{ id := ⟨1⟩, state := .active, capabilities := { swap := true }, isConference := true, mergedBefore := true
      children := [⟨2⟩, ⟨3⟩] },
    { id := ⟨2⟩, state := .active, parent := some ⟨1⟩ }, { id := ⟨3⟩, state := .onHold, parent := some ⟨1⟩ },
    { id := ⟨4⟩, state := .ringing, handle := some "tel:+1555#a", gatewayAddress := some "tel:999" }]⟩

/-- An attached headset asks for the phone state. -/
def asked : Moment where
  before := { calls := mergedAndKnocked, headset := true }
  action := .message (.command .phoneState true)
  outputs := [.notice (.phoneState (PhoneState.ofCalls mergedAndKnocked))]

theorem sent_describes_asked :
    asked ∈ ((Run.start mergedAndKnocked {} {}).after [.message (.headset true), asked.action]).past ∧
    PhoneState.ofCalls mergedAndKnocked ∈ phoneStates asked.outputs ∧ mergedAndKnocked.UniqueIds ∧
    asked.before.headset = true ∧ (PhoneState.ofCalls mergedAndKnocked).number = "+1555" ∧
    (PhoneState.ofCalls mergedAndKnocked).numHeld = 0 := by
  have hasked : asked ∈ ((Run.start mergedAndKnocked {} {}).after [.message (.headset true), asked.action]).past :=
    List.mem_cons_self
  have hsent : PhoneState.ofCalls mergedAndKnocked ∈ phoneStates asked.outputs := List.mem_singleton_self _
  have hu : mergedAndKnocked.UniqueIds := by decide
  obtain ⟨hheadset, hdescribes⟩ := sent_describes mergedAndKnocked {} {} _ asked hasked _ hsent
  have hringing : mergedAndKnocked.IsFirst (· = .ringing) mergedAndKnocked.calls[3] :=
    ⟨rfl, rfl, mergedAndKnocked.calls.take 3, [], rfl, by decide⟩
  have hactive : mergedAndKnocked.IsFirst (· = .active) mergedAndKnocked.calls[0] :=
    ⟨rfl, rfl, [], mergedAndKnocked.calls.drop 1, rfl, List.forall_mem_nil _⟩
  have hnumber := ((hdescribes hu).caller _ "tel:+1555#a" hringing rfl).1
  have hheld := (hdescribes hu).heldLegs _ hactive ⟨rfl, Or.inl rfl⟩
  exact ⟨hasked, hsent, hu, hheadset, hnumber, hheld⟩

end HandsFree

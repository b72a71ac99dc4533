import HandsFree.CallTable.Roles
import HandsFree.LineState

/-! The aggregate phone state, computed from the calls alone.

    A phone state is incoming, dialing, alerting or idle. An active, held or waiting call shows in the
    two counts and in the listing of the calls, and confuses headsets as a phone state. -/

namespace HandsFree

structure PhoneState where
  numActive : UInt32
  numHeld : UInt32
  state : LineState
  /-- The number of the ringing call, empty when nothing rings. -/
  number : String
  numberType : Int
  deriving DecidableEq

namespace PhoneState

/-- The number type that goes with no number. -/
def noNumberType : Int := 0x80

/-- The phone state of a phone without calls. -/
def idle : PhoneState := ⟨0, 0, .idle, "", noNumberType⟩

/-- A ringing call is announced before an outgoing one. -/
def lineState (t : CallTable) : LineState :=
  match t.ringingCall?, t.outgoingCall? with
  | some _, _ => .incoming
  | none, some c => if c.state = .dialing then .alerting else .dialing
  | none, none => .idle

/-- The number of the ringing call. -/
def caller? (t : CallTable) : Option String := t.ringingCall?.bind (·.handleNumber)

/-- What a conference whose legs can be swapped or merged keeps on hold inside itself: such a conference
    reports its second leg as a held call, so that the headset offers the two actions. -/
def heldLegs? (c : Call) : Option UInt32 :=
  if !c.exposesChildren then none
  else if c.can .swap then some (if c.mergedBefore then 0 else 1)
  else if c.can .merge then some 1
  else none

/-- The phone state of the given calls. Headsets only track whether a call is active, so a conference
    counts once, however many legs it has. -/
def ofCalls (t : CallTable) : PhoneState where
  numActive := if t.activeCall?.isSome then 1 else 0
  numHeld := (t.activeCall?.bind heldLegs?).getD (UInt32.ofNat t.heldCount)
  state := lineState t
  number := (caller? t).getD ""
  numberType := ((caller? t).map Address.numberType).getD noNumberType

end PhoneState

end HandsFree

import HandsFree.Account
import HandsFree.Address
import HandsFree.Coded

/-! Call records as the call manager reports them.

    A conference lists the ids of its legs (its children), and every leg names its conference (its
    parent). Some conferences have no legs to show; they carry the capability `noChildren`. -/

namespace HandsFree

/-- Names a call for as long as the call manager tracks it. -/
structure CallId where
  number : UInt32
  deriving DecidableEq

inductive CallState
  | new
  | connecting
  | selectAccount
  | dialing
  | ringing
  | active
  | onHold
  | disconnecting
  | disconnected
  | aborted
  deriving DecidableEq

namespace CallState

instance : Coded CallState where
  members := [.new, .connecting, .selectAccount, .dialing, .ringing, .active, .onHold, .disconnecting,
    .disconnected, .aborted]
  mem_members a := by cases a <;> decide
  nodup_members := by decide

/-- An outgoing call that has not been answered yet. -/
def isOutgoing : CallState → Bool
  | connecting | selectAccount | dialing => true
  | _ => false

end CallState

inductive Direction
  | outgoing
  | incoming
  deriving DecidableEq

instance : Coded Direction where
  members := [.outgoing, .incoming]
  mem_members a := by cases a <;> decide
  nodup_members := by decide

/-- What a call or conference can be asked to do at the moment. A conference with `noChildren` does not
    show its participants as calls of their own. -/
inductive Capability
  | hold
  | merge
  | swap
  | noChildren
  deriving DecidableEq

instance : Coded Capability where
  members := [.hold, .merge, .swap, .noChildren]
  mem_members a := by cases a <;> decide
  nodup_members := by decide

structure Capabilities where
  hold : Bool := false
  merge : Bool := false
  swap : Bool := false
  noChildren : Bool := false
  deriving DecidableEq

namespace Capabilities

def has (s : Capabilities) : Capability → Bool
  | .hold => s.hold
  | .merge => s.merge
  | .swap => s.swap
  | .noChildren => s.noChildren

def add (s : Capabilities) : Capability → Capabilities
  | .hold => { s with hold := true }
  | .merge => { s with merge := true }
  | .swap => { s with swap := true }
  | .noChildren => { s with noChildren := true }

def ofList (cs : List Capability) : Capabilities := cs.foldl add {}

/-- The capabilities of the set, in the order of their codes. -/
def toList (s : Capabilities) : List Capability := Coded.members.filter s.has

/-- Whether every capability of `t` is also in `s`. -/
def includes (s t : Capabilities) : Bool := t.toList.all s.has

theorem mem_toList {s : Capabilities} {c : Capability} : c ∈ s.toList ↔ s.has c = true := by
  simp [toList, Coded.mem_members]

theorem has_add (s : Capabilities) (c d : Capability) : (s.add c).has d = (d == c || s.has d) := by
  cases c <;> cases d <;> rfl

end Capabilities

structure Call where
  id : CallId
  state : CallState
  direction : Direction := .outgoing
  capabilities : Capabilities := {}
  /-- The address of the other party. -/
  handle : Option String := none
  /-- The address dialled first, where a gateway placed the call. -/
  gatewayAddress : Option String := none
  /-- The phone account the call runs through. -/
  account : Option AccountHandle := none
  isConference : Bool := false
  parent : Option CallId := none
  children : List CallId := []
  /-- The leg that a conference treats as its foreground. -/
  activeLeg : Option CallId := none
  /-- Whether the legs of a conference have been merged before. -/
  mergedBefore : Bool := false
  /-- The calls that this one could be conferenced with. -/
  conferenceable : List CallId := []
  deriving DecidableEq

namespace Call

def can (c : Call) (k : Capability) : Bool := c.capabilities.has k

def isIncoming (c : Call) : Bool := c.direction == .incoming

/-- A call that is no leg of a conference. -/
def isTopLevel (c : Call) : Bool := c.parent.isNone

/-- A conference that shows its participants as calls of their own. -/
def exposesChildren (c : Call) : Bool := c.isConference && !c.can .noChildren

/-- A conference whose participants are not shown as calls. -/
def hidesChildren (c : Call) : Bool := c.isConference && c.can .noChildren

/-- A conference whose legs can still change places. -/
def canSwapLegs (c : Call) : Bool := c.can .swap && !c.mergedBefore

/-- The number of the other party, by the handle alone. -/
def handleNumber (c : Call) : Option String := c.handle.map Address.schemeSpecificPart

/-- The number to show: a gateway's first address wins over the handle. -/
def displayNumber (c : Call) : Option String :=
  (c.gatewayAddress <|> c.handle).map Address.schemeSpecificPart

end Call

end HandsFree

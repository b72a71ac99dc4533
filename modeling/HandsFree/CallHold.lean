import HandsFree.CallTable.Links
import HandsFree.CallTable.Roles
import HandsFree.Command
import HandsFree.VideoState

/-! The hold commands of a headset, and what the call manager is asked to do for them.

    Deciding and doing are apart: `CallHold.operations` only looks at the calls. No operations means that
    the command does not apply to them. A ringing call wins over a held call, and a held call over acting
    on the active one. -/

namespace HandsFree

inductive CallHold
  /-- Releases the held calls, or rejects a waiting call. -/
  | releaseHeld
  /-- Releases the active call and accepts the waiting or held call. -/
  | releaseActive
  /-- Holds the active call and accepts the waiting or held call. -/
  | holdActive
  /-- Adds the held call to the conversation. -/
  | addHeld
  deriving DecidableEq

instance : Coded CallHold where
  members := [.releaseHeld, .releaseActive, .holdActive, .addHeld]
  mem_members a := by cases a <;> decide
  nodup_members := by decide

def CallHold.ofCode (code : Int32) : Except CommandError CallHold :=
  match Coded.ofCode? code.toInt with
  | some command => .ok command
  | none => .error (.unknownHold code)

/-- A single operation on a call, or on two. -/
inductive Operation
  | answer (call : CallId)
  | reject (call : CallId)
  | disconnect (call : CallId)
  | hold (call : CallId)
  | unhold (call : CallId)
  | merge (call : CallId)
  | swap (call : CallId)
  | conference (call other : CallId)
  deriving DecidableEq

/-- What reaches the call manager. -/
inductive Request
  | answer (call : CallId) (video : VideoState)
  | reject (call : CallId) (withMessage : Bool) (message : Option String)
  | disconnect (call : CallId)
  | hold (call : CallId)
  | unhold (call : CallId)
  | conference (call other : CallId)
  | merge (call : CallId)
  | swap (call : CallId)
  | playTone (call : CallId) (tone : Char)
  | stopTone (call : CallId)
  deriving DecidableEq

namespace Operation

/-- Whether the legs of a conference change places. -/
def isSwap : Operation → Bool
  | swap _ => true
  | _ => false

/-- The request that carries the operation out. A call is answered with the given video state, and
    rejected without a message. -/
def request (video : VideoState) : Operation → Request
  | answer call => .answer call video
  | reject call => .reject call false none
  | disconnect call => .disconnect call
  | hold call => .hold call
  | unhold call => .unhold call
  | merge call => .merge call
  | swap call => .swap call
  | conference call other => .conference call other

end Operation

namespace CallHold

/-- The conference of the active call, the call itself or its parent, if its legs can be swapped. -/
def swappable? (t : CallTable) (active : Call) : Option CallId :=
  let conference? := if active.isConference then some active else t.parentOf? active.id
  (conference?.filter fun c => c.canSwapLegs && !c.can .noChildren).map (·.id)

/-- Holds the active call, or swaps the legs of its conference. -/
def setAside (t : CallTable) (active : Call) : List Operation :=
  match swappable? t active with
  | some conference => [.swap conference]
  | none => if active.can .hold then [.hold active.id] else []

/-- Merges the active call, or else joins it with the first call that it can be conferenced with. -/
def joinTo (active : Call) : List Operation :=
  if active.can .merge then [.merge active.id]
  else match active.conferenceable with
    | other :: _ => [.conference active.id other]
    | [] => []

/-- Answers the ringing call, or else takes the held call up again. -/
def accept (t : CallTable) : List Operation :=
  match t.ringing?, t.held? with
  | some ringing, _ => [.answer ringing]
  | none, some held => [.unhold held]
  | none, none => []

/-- What the command comes to for the given calls. Taking up a held call puts the active one on hold, so
    `holdActive` need not say so. -/
def operations (t : CallTable) : CallHold → List Operation
  | releaseHeld =>
    match t.ringing?, t.held? with
    | some ringing, _ => [.reject ringing]
    | none, some held => [.disconnect held]
    | none, none => []
  | releaseActive => (t.active?.map Operation.disconnect).toList ++ accept t
  | holdActive =>
    match accept t, t.activeCall? with
    | [], some active => setAside t active
    | accepted, _ => accepted
  | addHeld => (t.activeCall?.map joinTo).getD []

end CallHold

end HandsFree

import HandsFree.Call

/-! The state of a call as a headset knows it. -/

namespace HandsFree

inductive LineState
  | active
  | held
  | dialing
  | alerting
  | incoming
  | waiting
  | idle
  deriving DecidableEq

namespace LineState

instance : Coded LineState where
  members := [.active, .held, .dialing, .alerting, .incoming, .waiting, .idle]
  mem_members a := by cases a <;> decide
  nodup_members := by decide

/-- The state in which a single call is listed. A call that the call manager knows is already being set
    up, hence an outgoing call is alerting, never dialing; a ringing call waits behind the foreground
    call unless it is that call itself. -/
def ofCall (state : CallState) (isForeground : Bool) : LineState :=
  match state with
  | .new | .disconnecting | .disconnected | .aborted => idle
  | .active => active
  | .connecting | .selectAccount | .dialing => alerting
  | .onHold => held
  | .ringing => if isForeground then incoming else waiting

theorem ofCall_ne_dialing (state : CallState) (b : Bool) : ofCall state b ≠ dialing := by
  cases state <;> cases b <;> decide

end LineState

end HandsFree

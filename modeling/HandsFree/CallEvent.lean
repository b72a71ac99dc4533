import HandsFree.Debounce

/-! Notices of the call manager, and which of them can change what the headset should see. -/

namespace HandsFree

inductive CallEvent
  | added (call : CallId)
  | removed (call : CallId)
  | stateChanged (call : CallId) (before after : CallState)
  /-- The call joined or left a conference, or its legs changed. -/
  | conferenceChanged (call : CallId)
  deriving DecidableEq

namespace CallEvent

/-- Whether a change of state matters. A call goes on hold while another is connecting: the update waits
    until that one dials, so that both show together. A call dials while another is still active: that
    one is about to go on hold, which brings the next update. -/
def changeMatters (t : CallTable) (before after : CallState) : Bool :=
  !(before == .active && after == .onHold && t.calls.any (·.state == .connecting)) &&
    !(before == .connecting && after == .dialing && t.active?.isSome)

/-- Whether a change of a conference matters. The legs get their parent one at a time, so only the
    parent's own notice counts, and not while it has a single leg. -/
def conferenceMatters (t : CallTable) (id : CallId) : Bool :=
  match t.get? id with
  | none => true
  | some c => c.isTopLevel && c.children.length != 1

/-- Whether the event can change what the headset should see. -/
def matters (e : CallEvent) (t : CallTable) : Bool :=
  match e with
  | added _ | removed _ => true
  | stateChanged _ before after => changeMatters t before after
  | conferenceChanged call => conferenceMatters t call

end CallEvent

/-- The phone state to send after an event, if any, and the memory afterwards. -/
def Debounce.onEvent (m : Debounce) (e : CallEvent) (t : CallTable) : Option PhoneState × Debounce :=
  if e.matters t then m.update t false else (none, m)

end HandsFree

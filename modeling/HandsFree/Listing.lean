import HandsFree.CallTable.Roles
import HandsFree.LineState

/-! The listing of the current calls, one line a call.

    A conference that shows its legs is not listed; its legs are. A conference without legs to show is
    listed once, without a number. The lines are numbered from 1 in the order of the table, which means
    something within one listing only, and an end marker follows them. -/

namespace HandsFree

/-- A line of a listing as it is sent. -/
structure ListEntry where
  /-- The place in the listing, from 1; 0 marks its end. -/
  index : UInt32
  direction : Direction
  state : LineState
  mode : Int
  /-- The call is a leg of a conference. -/
  multiparty : Bool
  number : Option String
  numberType : Int
  deriving DecidableEq

namespace ListEntry

def voiceMode : Int := 0

/-- The number type of a line without a number. -/
def noNumberType : Int := -1

/-- Ends a listing. Only its index means anything. -/
def endMarker : ListEntry := ⟨0, .outgoing, .active, voiceMode, false, none, 0⟩

def isEndMarker (e : ListEntry) : Bool := e.index == 0

end ListEntry

namespace Listing

/-- What a listing says about one call, before the lines are numbered. -/
structure Line where
  direction : Direction
  state : LineState
  multiparty : Bool
  number : Option String
  deriving DecidableEq

def Line.entry (l : Line) (index : UInt32) : ListEntry where
  index := index
  direction := l.direction
  state := l.state
  mode := ListEntry.voiceMode
  multiparty := l.multiparty
  number := l.number
  numberType := (l.number.map Address.numberType).getD ListEntry.noNumberType

/-- The line of a leg. Where the legs can still be merged or swapped they have to show as distinct active
    and held calls, or else the headset never offers those actions. -/
def legLine (conference c : Call) (state : LineState) : Line :=
  match state, conference.activeLeg with
  | .active, some leg =>
    if conference.can .merge || conference.canSwapLegs then
      ⟨c.direction, if c.id = leg then .active else .held, false, c.displayNumber⟩
    else ⟨c.direction, state, true, c.displayNumber⟩
  | _, _ => ⟨c.direction, state, true, c.displayNumber⟩

/-- The line of a call that belongs to no known conference. A conference that hides its participants has
    no number that the headset could address. -/
def ownLine (c : Call) (state : LineState) : Line :=
  if c.hidesChildren then ⟨c.direction, state, true, none⟩
  else ⟨c.direction, state, false, c.displayNumber⟩

/-- The line of a call, if it is listed at all. -/
def line? (t : CallTable) (c : Call) : Option Line :=
  let state := LineState.ofCall c.state (t.foreground? == some c.id)
  if c.exposesChildren || state == .idle then none
  else match c.parent.bind t.get? with
    | some conference => some (legLine conference c state)
    | none => some (ownLine c state)

/-- The lines of all listed calls, in the order of the table. -/
def lines (t : CallTable) : List Line := t.calls.filterMap (line? t)

def entries (t : CallTable) : List ListEntry :=
  (lines t).mapIdx fun i l => l.entry (UInt32.ofNat (i + 1))

/-- The whole listing, with its end marker. -/
def ofCalls (t : CallTable) : List ListEntry := entries t ++ [ListEntry.endMarker]

end Listing

end HandsFree

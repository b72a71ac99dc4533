import HandsFree.CallTable.Basic

/-! The links between a conference and its legs, written at both ends: a leg names its parent, and the
    parent lists the leg.

    Joining and leaving write the two ends one after the other; in between the links disagree.
    `conferenceSettled` and `isSettled` say when they agree. -/

namespace HandsFree.CallTable

/-- The record of the conference that the call belongs to. -/
def parentOf? (t : CallTable) (id : CallId) : Option Call :=
  (t.get? id).bind fun c => c.parent.bind t.get?

/-- The records of the legs that the call lists; ids without a record are left out. -/
def childrenOf (t : CallTable) (id : CallId) : List Call :=
  match t.get? id with
  | some c => c.children.filterMap t.get?
  | none => []

/-! ### Elementary updates -/

/-- Writes the leg's end of a link, or clears it. -/
def setParent (t : CallTable) (child : CallId) (parent : Option CallId) : CallTable :=
  t.modify child fun c => { c with parent := parent }

/-- Writes the conference's end of a link: the call becomes a conference that lists `child`. -/
def addChild (t : CallTable) (parent child : CallId) : CallTable :=
  t.modify parent fun c =>
    { c with isConference := true
             children := if child ∈ c.children then c.children else c.children ++ [child] }

/-- Takes `child` off the list of the conference. -/
def dropChild (t : CallTable) (parent child : CallId) : CallTable :=
  t.modify parent fun c => { c with children := c.children.filter (· != child) }

/-! ### Joining and leaving -/

/-- Makes `child` a leg of `parent`. Both calls have to be known. -/
def link? (t : CallTable) (parent child : CallId) : Option CallTable :=
  if t.contains parent && t.contains child then
    some ((t.setParent child (some parent)).addChild parent child)
  else none

/-- Takes `child` out of the conference it belongs to, if there is one. -/
def unlink (t : CallTable) (child : CallId) : CallTable :=
  match (t.get? child).bind (·.parent) with
  | some parent => (t.setParent child none).dropChild parent child
  | none => t

/-! ### Agreement of the links -/

/-- The conference and its legs agree. A conference that exposes its legs has at least one, every leg
    that it lists exists and points back, and every call that points at it is listed. -/
def conferenceSettled (t : CallTable) (id : CallId) : Bool :=
  match t.get? id with
  | none => false
  | some conference =>
    !conference.exposesChildren ||
      (!conference.children.isEmpty &&
        conference.children.all (fun child => (t.get? child).any (·.parent == some id)) &&
        t.calls.all fun c => c.parent != some id || conference.children.contains c.id)

/-- The record is linked to a conference that shows its legs, or to none. -/
def parentExposes (t : CallTable) (c : Call) : Bool :=
  match c.parent with
  | none => true
  | some parent => (t.get? parent).any (·.exposesChildren)

/-- All conferences agree with their legs, and every leg belongs to a conference that shows it. -/
def isSettled (t : CallTable) : Bool :=
  t.calls.all (fun c => !c.exposesChildren || t.conferenceSettled c.id) &&
    t.calls.all t.parentExposes

/-! ### What the updates keep -/

theorem ids_setParent (t : CallTable) (child : CallId) (parent : Option CallId) :
    (t.setParent child parent).ids = t.ids :=
  ids_modify (by exact fun _ h => h) t

theorem ids_addChild (t : CallTable) (parent child : CallId) : (t.addChild parent child).ids = t.ids :=
  ids_modify (by exact fun _ h => h) t

theorem ids_dropChild (t : CallTable) (parent child : CallId) : (t.dropChild parent child).ids = t.ids :=
  ids_modify (by exact fun _ h => h) t

theorem ids_of_link? {t u : CallTable} {parent child : CallId} (h : t.link? parent child = some u) :
    u.ids = t.ids := by
  unfold link? at h
  split at h
  · rw [← Option.some.inj h, ids_addChild, ids_setParent]
  · cases h

theorem ids_unlink (t : CallTable) (child : CallId) : (t.unlink child).ids = t.ids := by
  unfold unlink
  split
  · rw [ids_dropChild, ids_setParent]
  · rfl

end HandsFree.CallTable

import HandsFree.CallTable.Basic

/-! Which call plays which part: the active, ringing, held and outgoing call, and the foreground call
    that single-call commands act on. Only top-level calls play a part; the legs of a conference are
    represented by their parent. Of several candidates the first in the table's order is taken. -/

namespace HandsFree.CallTable

/-- The first top-level call of which `p` holds. -/
def firstTopLevel? (t : CallTable) (p : Call → Bool) : Option CallId :=
  (t.calls.find? fun c => c.isTopLevel && p c).map (·.id)

/-- The first top-level call in one of the given states. -/
def firstInStates? (t : CallTable) (states : List CallState) : Option CallId :=
  t.firstTopLevel? fun c => states.contains c.state

def countInState (t : CallTable) (state : CallState) : Nat :=
  t.calls.countP fun c => c.isTopLevel && c.state == state

def active? (t : CallTable) : Option CallId := t.firstInStates? [.active]

def ringing? (t : CallTable) : Option CallId := t.firstInStates? [.ringing]

def held? (t : CallTable) : Option CallId := t.firstInStates? [.onHold]

/-- The first top-level call that has been placed and not answered yet. -/
def outgoing? (t : CallTable) : Option CallId := t.firstTopLevel? (·.state.isOutgoing)

/-- The target of single-call commands: the active call, else the held, the ringing, the outgoing one. -/
def foreground? (t : CallTable) : Option CallId :=
  t.active? <|> t.held? <|> t.ringing? <|> t.outgoing?

def heldCount (t : CallTable) : Nat := t.countInState .onHold

def activeCall? (t : CallTable) : Option Call := t.active?.bind t.get?

def ringingCall? (t : CallTable) : Option Call := t.ringing?.bind t.get?

def outgoingCall? (t : CallTable) : Option Call := t.outgoing?.bind t.get?

def foregroundCall? (t : CallTable) : Option Call := t.foreground?.bind t.get?

/-- The call that plays a part is tracked, is at top level and fits the part. -/
theorem exists_of_firstTopLevel? {t : CallTable} {p : Call → Bool} {id : CallId}
    (h : t.firstTopLevel? p = some id) :
    ∃ c ∈ t.calls, c.id = id ∧ c.isTopLevel = true ∧ p c = true := by
  obtain ⟨c, hc, rfl⟩ := Option.map_eq_some_iff.mp h
  have hp := List.find?_some hc
  rw [Bool.and_eq_true] at hp
  exact ⟨c, List.mem_of_find?_eq_some hc, rfl, hp⟩

theorem firstTopLevel?_eq_none_iff {t : CallTable} {p : Call → Bool} :
    t.firstTopLevel? p = none ↔ ∀ c ∈ t.calls, c.isTopLevel = true → p c = false := by
  simp [firstTopLevel?, List.find?_eq_none]

end HandsFree.CallTable

import HandsFree.CallTable.Links
import HandsFree.Proofs.CallTable.Lookup
import Mathlib.Data.List.Find

/-! What the order of a table does not decide. Where no two records share an id, a look-up by id finds the same
    record in every order. The call that plays a part is the first of its kind, so the order decides between
    several candidates and nothing else. -/

namespace HandsFree.CallTable
variable {t u : CallTable} {x : CallState}

/-- At most one call at top level is in a state of the given kind. -/
def AtMostOne (t : CallTable) (q : CallState → Prop) : Prop :=
  ∀ c ∈ t.calls, ∀ d ∈ t.calls, c.parent = none → q c.state → d.parent = none → q d.state → c = d

instance (t : CallTable) (q : CallState → Prop) [DecidablePred q] : Decidable (t.AtMostOne q) :=
  inferInstanceAs (Decidable (∀ c ∈ t.calls, ∀ d ∈ t.calls, _))

/-- No two calls at top level could play the same part. -/
structure Unambiguous (t : CallTable) : Prop where
  active : t.AtMostOne (· = .active)
  held : t.AtMostOne (· = .onHold)
  ringing : t.AtMostOne (· = .ringing)
  outgoing : t.AtMostOne fun x => x.isOutgoing = true

/-- The same records in another order, with the same answer to every look-up. -/
structure Reordered (t u : CallTable) : Prop where
  perm : t.calls.Perm u.calls
  get? : t.get? = u.get?
  active? : t.active? = u.active?
  held? : t.held? = u.held?
  ringing? : t.ringing? = u.ringing?
  outgoing? : t.outgoing? = u.outgoing?

/-! ### Look-ups -/

theorem UniqueIds.get?_of_perm (hu : t.UniqueIds) (h : t.calls.Perm u.calls) : t.get? = u.get? := by
  funext id
  refine List.find?_eq_find?_of_perm h ?_
  rintro c ⟨hc, hcid⟩ d ⟨hd, hdid⟩
  rw [beq_iff_eq] at hcid hdid
  exact hu.eq_of_id hc hd (hcid.trans hdid.symm)

theorem firstTopLevel?_of_perm {q : CallState → Bool} (hone : t.AtMostOne fun x => q x = true)
    (h : t.calls.Perm u.calls) : (t.firstTopLevel? fun c => q c.state) = u.firstTopLevel? fun c => q c.state := by
  refine congrArg (Option.map Call.id) (List.find?_eq_find?_of_perm h ?_)
  rintro c ⟨hc, hcq⟩ d ⟨hd, hdq⟩
  rw [Bool.and_eq_true, Call.isTopLevel, Option.isNone_iff_eq_none] at hcq hdq
  exact hone c hc d hd hcq.1 hcq.2 hdq.1 hdq.2

theorem firstInStates?_of_perm (hone : t.AtMostOne (· = x)) (h : t.calls.Perm u.calls) :
    t.firstInStates? [x] = u.firstInStates? [x] := by
  refine firstTopLevel?_of_perm (q := fun y => [x].contains y) ?_ h
  simpa only [List.contains_cons, List.contains_nil, Bool.or_false, beq_iff_eq] using hone

theorem UniqueIds.reordered (hu : t.UniqueIds) (hone : t.Unambiguous) (h : t.calls.Perm u.calls) : t.Reordered u where
  perm := h
  get? := hu.get?_of_perm h
  active? := firstInStates?_of_perm hone.active h
  held? := firstInStates?_of_perm hone.held h
  ringing? := firstInStates?_of_perm hone.ringing h
  outgoing? := firstTopLevel?_of_perm hone.outgoing h

namespace Reordered

theorem foreground? (h : t.Reordered u) : t.foreground? = u.foreground? := by
  rw [CallTable.foreground?, h.active?, h.held?, h.ringing?, h.outgoing?]
  rfl

theorem activeCall? (h : t.Reordered u) : t.activeCall? = u.activeCall? := by
  rw [CallTable.activeCall?, h.active?, h.get?]
  rfl

theorem ringingCall? (h : t.Reordered u) : t.ringingCall? = u.ringingCall? := by
  rw [CallTable.ringingCall?, h.ringing?, h.get?]
  rfl

theorem outgoingCall? (h : t.Reordered u) : t.outgoingCall? = u.outgoingCall? := by
  rw [CallTable.outgoingCall?, h.outgoing?, h.get?]
  rfl

theorem heldCount (h : t.Reordered u) : t.heldCount = u.heldCount := h.perm.countP_eq _

/-! ### Links -/

theorem parentOf? (h : t.Reordered u) (id : CallId) : t.parentOf? id = u.parentOf? id := by
  rw [CallTable.parentOf?, h.get?]
  rfl

theorem conferenceSettled (h : t.Reordered u) (id : CallId) : t.conferenceSettled id = u.conferenceSettled id := by
  unfold CallTable.conferenceSettled
  rw [h.get?]
  cases u.get? id with
  | none => rfl
  | some conference => simp only [h.perm.all_eq]

theorem isSettled (h : t.Reordered u) : t.isSettled = u.isSettled := by
  have hparent : t.parentExposes = u.parentExposes := by
    funext c
    simp only [CallTable.parentExposes, h.get?]
  rw [CallTable.isSettled, CallTable.isSettled, ← h.perm.all_eq, ← h.perm.all_eq, hparent]
  simp only [h.conferenceSettled]

end Reordered
end HandsFree.CallTable

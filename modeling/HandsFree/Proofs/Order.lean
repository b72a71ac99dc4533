import HandsFree.CallEvent
import HandsFree.CallHold
import HandsFree.Proofs.CallTable.Order
import HandsFree.Proofs.Listing

/-! Where no two calls compete for a part, the order of the table is seen in the numbers of a listing and nowhere
    else. The phone state, the operations of hold commands, and which updates reach the headset are the same in
    every order, and a listing has the same lines in another order. -/

namespace HandsFree

/-- The entry without its place in the listing. -/
def ListEntry.unnumbered (e : ListEntry) : ListEntry := { e with index := 0 }

namespace CallTable.Reordered
variable {t u : CallTable}

theorem ofCalls (h : t.Reordered u) : PhoneState.ofCalls t = PhoneState.ofCalls u := by
  simp only [PhoneState.ofCalls, PhoneState.lineState, PhoneState.caller?, h.activeCall?, h.ringingCall?,
    h.outgoingCall?, h.heldCount]

/-! ### Hold commands -/

theorem setAside (h : t.Reordered u) (c : Call) : CallHold.setAside t c = CallHold.setAside u c := by
  have hswap : CallHold.swappable? t c = CallHold.swappable? u c := by
    rw [CallHold.swappable?, h.parentOf?]
    rfl
  rw [CallHold.setAside, hswap]
  rfl

theorem accept (h : t.Reordered u) : CallHold.accept t = CallHold.accept u := by
  rw [CallHold.accept, h.ringing?, h.held?]
  rfl

theorem operations (h : t.Reordered u) (k : CallHold) : k.operations t = k.operations u := by
  cases k with
  | releaseHeld => simp only [CallHold.operations, h.ringing?, h.held?]
  | releaseActive => simp only [CallHold.operations, h.active?, h.accept]
  | holdActive => simp only [CallHold.operations, h.accept, h.activeCall?, h.setAside]
  | addHeld => simp only [CallHold.operations, h.activeCall?]

/-! ### Events and updates -/

theorem matters (h : t.Reordered u) (e : CallEvent) : e.matters t = e.matters u := by
  cases e with
  | added call => rfl
  | removed call => rfl
  | stateChanged call before after =>
    simp only [CallEvent.matters, CallEvent.changeMatters, h.perm.any_eq, h.active?]
  | conferenceChanged call => simp only [CallEvent.matters, CallEvent.conferenceMatters, h.get?]

theorem accepts (h : t.Reordered u) (m : Debounce) : m.accepts t = m.accepts u := by
  simp only [Debounce.accepts, Debounce.isNews, Debounce.absorbed, h.heldCount, h.isSettled, h.ofCalls, h.held?,
    h.activeCall?]

theorem update (h : t.Reordered u) (m : Debounce) (force : Bool) : m.update t force = m.update u force := by
  simp only [Debounce.update, Debounce.sent, h.accepts, h.ofCalls, h.held?]

/-! ### Listings -/

theorem line? (h : t.Reordered u) : Listing.line? t = Listing.line? u := by
  funext c
  simp only [Listing.line?, h.foreground?, h.get?]

theorem perm_lines (h : t.Reordered u) : (Listing.lines t).Perm (Listing.lines u) := by
  rw [Listing.lines, h.line?]
  exact h.perm.filterMap _

end CallTable.Reordered

namespace Listing

theorem map_unnumbered_entries (t : CallTable) :
    (entries t).map ListEntry.unnumbered = (lines t).map fun l => l.entry 0 :=
  map_entries (fun _ _ => rfl) t

theorem dropLast_ofCalls (t : CallTable) : (ofCalls t).dropLast = entries t := List.dropLast_concat

end Listing

namespace CallTable
variable {t u : CallTable}

/-- Let the ids of a table differ, and let at most one call at top level be active, at most one on hold, at most one
    ringing and at most one outgoing. Then the table has in every order the same phone state, the same foreground
    call, the same operations for every hold command and the same answer to whether its links agree. The same
    events matter, every update has the same outcome and leaves the same memory, and a listing has the same lines
    before its end marker but for their order and numbers. -/
theorem unaffected_by_order (hu : t.UniqueIds) (hone : t.Unambiguous) (h : t.calls.Perm u.calls) :
    PhoneState.ofCalls t = PhoneState.ofCalls u ∧
    t.foreground? = u.foreground? ∧
    (∀ k : CallHold, k.operations t = k.operations u) ∧
    t.isSettled = u.isSettled ∧
    (∀ e : CallEvent, e.matters t = e.matters u) ∧
    (∀ (m : Debounce) (force : Bool), m.update t force = m.update u force) ∧
    ((Listing.ofCalls t).dropLast.map ListEntry.unnumbered).Perm
      ((Listing.ofCalls u).dropLast.map ListEntry.unnumbered) := by
  have hr : t.Reordered u := hu.reordered hone h
  refine ⟨hr.ofCalls, hr.foreground?, hr.operations, hr.isSettled, hr.matters, hr.update, ?_⟩
  rw [Listing.dropLast_ofCalls, Listing.dropLast_ofCalls, Listing.map_unnumbered_entries,
    Listing.map_unnumbered_entries]
  exact hr.perm_lines.map _

/-- One call for every part. The active one is a conference whose two legs can be merged. -/
def oneForEach : CallTable :=
  ⟨[{ id := ⟨1⟩, state := .active, capabilities := { merge := true }, isConference := true,
      children := [⟨2⟩, ⟨3⟩], activeLeg := some ⟨2⟩ },
    { id := ⟨2⟩, state := .active, parent := some ⟨1⟩ },
    { id := ⟨3⟩, state := .active, parent := some ⟨1⟩, handle := some "tel:5550103" },
    { id := ⟨4⟩, state := .onHold },
    { id := ⟨5⟩, state := .ringing, handle := some "tel:+15550105" },
    { id := ⟨6⟩, state := .dialing }]⟩

theorem unaffected_by_order_oneForEach :
    let t := oneForEach
    let u : CallTable := ⟨oneForEach.calls.reverse⟩
    t.UniqueIds ∧ t.Unambiguous ∧ t.calls.Perm u.calls ∧ PhoneState.ofCalls t = PhoneState.ofCalls u ∧
    CallHold.releaseActive.operations u = [.disconnect ⟨1⟩, .answer ⟨5⟩] ∧
    Listing.ofCalls t ≠ Listing.ofCalls u ∧
    ((Listing.ofCalls t).dropLast.map ListEntry.unnumbered).Perm
      ((Listing.ofCalls u).dropLast.map ListEntry.unnumbered) := by
  intro t u
  have hu : t.UniqueIds := by decide
  have hone : t.Unambiguous := ⟨by decide, by decide, by decide, by decide⟩
  have h : t.calls.Perm u.calls := (List.reverse_perm t.calls).symm
  obtain ⟨hstate, -, hops, -, -, -, hlisting⟩ := unaffected_by_order hu hone h
  refine ⟨hu, hone, h, hstate, ?_, by decide, hlisting⟩
  rw [← hops]
  rfl

/-- Of two calls that ring, the first one is rejected. -/
example :
    CallHold.releaseHeld.operations ⟨[{ id := ⟨1⟩, state := .ringing }, { id := ⟨2⟩, state := .ringing }]⟩ ≠
      CallHold.releaseHeld.operations ⟨[{ id := ⟨2⟩, state := .ringing }, { id := ⟨1⟩, state := .ringing }]⟩ := by
  decide

end CallTable
end HandsFree

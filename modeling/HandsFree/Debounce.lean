import HandsFree.CallTable.Links
import HandsFree.PhoneState

/-! What was last told to the headset, and which further updates are news to it.

    An update waits while two calls are on hold, because a swap is in flight then, and while the links
    of a conference are half written. -/

namespace HandsFree

/-- The phone state sent last, and the call that was on hold when it was sent. -/
structure Debounce where
  last : Option PhoneState := none
  held : Option CallId := none
  deriving DecidableEq

namespace Debounce

/-- The memory right after the phone state of `t` was sent. -/
def sent (t : CallTable) : Debounce := ⟨some (PhoneState.ofCalls t), t.held?⟩

/-- The call last known on hold has become a leg of the active conference. That is a merge, which the
    headset need not see. -/
def absorbed (m : Debounce) (t : CallTable) : Bool :=
  m.held.any fun id => t.activeCall?.any fun c => c.exposesChildren && c.children.contains id

/-- The phone state differs from the one sent last, or another call is on hold. -/
def isNews (m : Debounce) (t : CallTable) : Bool :=
  m.last != some (PhoneState.ofCalls t) || (t.held? != m.held && !m.absorbed t)

/-- Whether an update that nobody asked for goes out. -/
def accepts (m : Debounce) (t : CallTable) : Bool :=
  t.heldCount != 2 && t.isSettled && m.isNews t

/-- The phone state to send, if any, and the memory afterwards. A forced update always goes out. -/
def update (m : Debounce) (t : CallTable) (force : Bool) : Option PhoneState × Debounce :=
  if force || m.accepts t then (some (PhoneState.ofCalls t), sent t) else (none, m)

/-- What goes out is the phone state of the calls, and then it is remembered. -/
theorem update_eq_some {m : Debounce} {t : CallTable} {force : Bool} {p : PhoneState}
    (h : (m.update t force).1 = some p) : p = PhoneState.ofCalls t ∧ (m.update t force).2 = sent t := by
  unfold update at h ⊢
  split at h
  · rename_i hc
    rw [if_pos hc]
    exact ⟨(Option.some.inj h).symm, rfl⟩
  · cases h

/-- Where nothing goes out, nothing is remembered. -/
theorem update_eq_none {m : Debounce} {t : CallTable} {force : Bool}
    (h : (m.update t force).1 = none) : (m.update t force).2 = m := by
  unfold update at h ⊢
  split at h
  · cases h
  · rename_i hc
    rw [if_neg hc]

end Debounce

end HandsFree

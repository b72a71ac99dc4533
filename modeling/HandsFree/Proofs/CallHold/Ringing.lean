import HandsFree.Proofs.CallHold
import HandsFree.Proofs.CallTable.Parts

/-! A ringing call shields the held calls. While a call rings, every hold command but the one that joins calls
    acts on the ringing call, and no held call and no leg has a say in what it does: the operations are the
    same for all tables with the same calls at top level that are not on hold. -/

namespace HandsFree
namespace CallTable
variable {t u : CallTable} {c : Call} {x : CallState}

/-- The calls at top level that are not on hold, in the order of the table. -/
def unheld (t : CallTable) : CallTable := ⟨t.calls.filter fun c => c.isTopLevel && c.state != .onHold⟩

theorem find?_unheld (t : CallTable) (hx : x ≠ .onHold) :
    (t.unheld.calls.find? fun c => c.isTopLevel && [x].contains c.state) =
      t.calls.find? fun c => c.isTopLevel && [x].contains c.state := by
  refine find?_filter_of_imp (fun c hc => ?_) t.calls
  rw [Bool.and_eq_true, List.contains_iff_mem, List.mem_singleton] at hc
  obtain ⟨htop, rfl⟩ := hc
  rw [htop, Bool.true_and, bne_iff_ne]
  exact hx

theorem firstInStates?_unheld (t : CallTable) (hx : x ≠ .onHold) : t.unheld.firstInStates? [x] = t.firstInStates? [x] :=
  congrArg (Option.map Call.id) (find?_unheld t hx)

/-- No held call and no leg comes before the first call in another state. -/
theorem isFirst_unheld_iff (hx : x ≠ .onHold) : t.unheld.IsFirst (· = x) c ↔ t.IsFirst (· = x) c := by
  rw [← isFirst_contains_iff, ← isFirst_contains_iff, ← find?_eq_some_iff_isFirst, ← find?_eq_some_iff_isFirst,
    find?_unheld t hx]

end CallTable

namespace CallHold
open CallTable
variable {t u : CallTable} {r : CallId}

/-! ### Hold commands while a call rings -/

theorem accept_of_ringing (h : t.ringing? = some r) : accept t = [.answer r] := by
  rw [accept, h]

theorem releaseHeld_of_ringing (h : t.ringing? = some r) : releaseHeld.operations t = [.reject r] := by
  rw [operations, h]

theorem releaseActive_of_ringing (h : t.ringing? = some r) :
    releaseActive.operations t = (t.active?.map Operation.disconnect).toList ++ [.answer r] := by
  rw [operations, accept_of_ringing h]

theorem holdActive_of_ringing (h : t.ringing? = some r) : holdActive.operations t = [.answer r] := by
  rw [operations_holdActive, accept_of_ringing h, if_neg (List.cons_ne_nil _ _)]

/-- The operations depend on the ringing call and on the active one, if there is one. -/
theorem operations_congr_of_ringing (ht : t.ringing? = some r) (hu : u.ringing? = some r) (h : t.active? = u.active?)
    {k : CallHold} (hk : k ≠ .addHeld) : k.operations t = k.operations u := by
  cases k with
  | releaseHeld => rw [releaseHeld_of_ringing ht, releaseHeld_of_ringing hu]
  | releaseActive => rw [releaseActive_of_ringing ht, releaseActive_of_ringing hu, h]
  | holdActive => rw [holdActive_of_ringing ht, holdActive_of_ringing hu]
  | addHeld => exact absurd rfl hk

/-- Two tables have the same calls at top level but for those on hold, and one of these calls rings. Whatever
    is on hold in either table, and whatever their legs are, a hold command that joins no calls comes to the
    same for both. Let `r` be the first call that rings. Releasing the held calls rejects `r`. Releasing the
    active call disconnects it, if there is one, and answers `r`. Holding the active call answers `r`. -/
theorem ringing_shields_held (h : t.unheld = u.unheld) (hr : ∃ c ∈ t.unheld.calls, c.state = .ringing) :
    (∀ k : CallHold, k ≠ .addHeld → k.operations t = k.operations u) ∧
    ∃ r, t.IsFirst (· = .ringing) r ∧ u.IsFirst (· = .ringing) r ∧
      releaseHeld.operations t = [.reject r.id] ∧
      (∀ a, t.IsFirst (· = .active) a → releaseActive.operations t = [.disconnect a.id, .answer r.id]) ∧
      (¬t.HasTopLevel (· = .active) → releaseActive.operations t = [.answer r.id]) ∧
      holdActive.operations t = [.answer r.id] := by
  obtain ⟨r, hfirst⟩ : ∃ r, t.IsFirst (· = .ringing) r := by
    obtain ⟨c, hc, hringing⟩ := hr
    obtain ⟨hc, htop⟩ := List.mem_filter.mp hc
    rw [Bool.and_eq_true, Call.isTopLevel, Option.isNone_iff_eq_none] at htop
    cases hid : t.ringing? with
    | none => exact absurd ⟨c, hc, htop.1, hringing⟩ (firstInStates?_eq_none_iff.mp hid)
    | some id =>
      obtain ⟨r, hfirst, -⟩ := exists_isFirst_of_firstInStates? hid
      exact ⟨r, hfirst⟩
  have hfirst' : u.IsFirst (· = .ringing) r := by
    rw [← isFirst_unheld_iff (by decide), ← h, isFirst_unheld_iff (by decide)]
    exact hfirst
  have hactive : t.active? = u.active? := by
    rw [active?, ← firstInStates?_unheld t (by decide), h, firstInStates?_unheld u (by decide)]
    rfl
  have ht : t.ringing? = some r.id := hfirst.firstInStates?_eq
  have hu : u.ringing? = some r.id := hfirst'.firstInStates?_eq
  refine ⟨fun k => operations_congr_of_ringing ht hu hactive, r, hfirst, hfirst', releaseHeld_of_ringing ht,
    fun a ha => ?_, fun hnone => ?_, holdActive_of_ringing ht⟩
  · have ha' : t.active? = some a.id := ha.firstInStates?_eq
    rw [releaseActive_of_ringing ht, ha']
    rfl
  · have hnone' : t.active? = none := firstInStates?_eq_none_iff.mpr hnone
    rw [releaseActive_of_ringing ht, hnone']
    rfl

/-- An active call and one that rings, with other calls around them. -/
def knocking (before after : List Call) : CallTable :=
  ⟨before ++ { id := ⟨1⟩, state := .active } :: { id := ⟨2⟩, state := .ringing } :: after⟩

/-- Two held calls and a ringing leg count as little as one held call that can be conferenced. -/
theorem ringing_shields_held_knocking :
    let t := knocking [{ id := ⟨3⟩, state := .onHold }, { id := ⟨4⟩, state := .ringing, parent := some ⟨9⟩ }]
      [{ id := ⟨5⟩, state := .onHold }]
    let u := knocking [] [{ id := ⟨3⟩, state := .onHold, conferenceable := [⟨1⟩] }]
    t.unheld = u.unheld ∧ (∃ c ∈ t.unheld.calls, c.state = .ringing) ∧
    releaseHeld.operations t = releaseHeld.operations u ∧ releaseActive.operations t = releaseActive.operations u ∧
    holdActive.operations t = [.answer ⟨2⟩] := by
  intro t u
  have h : t.unheld = u.unheld := by decide
  have hr : ∃ c ∈ t.unheld.calls, c.state = .ringing := by decide
  obtain ⟨hsame, r, hfirst, -, -, -, -, hhold⟩ := ringing_shields_held h hr
  have hid : (⟨2⟩ : CallId) = r.id := Option.some.inj hfirst.firstInStates?_eq
  exact ⟨h, hr, hsame _ (by decide), hsame _ (by decide), hid ▸ hhold⟩

end CallHold
end HandsFree

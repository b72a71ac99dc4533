import HandsFree.CallHold
import HandsFree.Proofs.CallTable.Lookup

/-! What a hold command does with the active call. It is set aside only if there is no call to accept, and
    setting it aside swaps legs only if the call itself is a conference that can swap them: the active
    call is at top level, so it has no parent to swap instead. No other part of a hold command swaps. A hold
    command comes to one operation at most, unless it releases the active call and then accepts another. -/

namespace HandsFree
namespace Coded
variable {α : Type} [DecidableEq α] [Coded α]

/-- A number is the code of at most one member. -/
theorem eq_code_of_ofCode? {n : Int} {a : α} (h : ofCode? n = some a) : n = code a := by
  unfold ofCode? at h
  split at h
  · cases h
  · rename_i hneg
    obtain ⟨hlt, rfl⟩ := List.getElem?_eq_some_iff.mp h
    rw [code, List.Nodup.idxOf_getElem nodup_members]
    omega

end Coded

namespace CallHold
open CallTable
variable {t : CallTable} {c : Call} {id : CallId}

theorem eq_of_ofCode {code i : Int32} {k : CallHold} (h : ofCode code = .ok k) (hi : i.toInt = Coded.code k) :
    code = i := by
  unfold ofCode at h
  split at h
  · rename_i k' hk
    cases h
    exact Int32.toInt_inj.mp ((Coded.eq_code_of_ofCode? hk).trans hi.symm)
  · cases h

theorem swappable?_eq (hu : t.UniqueIds) (hc : t.activeCall? = some c) :
    swappable? t c = if c.isConference && c.canSwapLegs && !c.can .noChildren then some c.id else none := by
  obtain ⟨hmem, htop, -⟩ := hu.of_activeCall? hc
  have hparent : t.parentOf? c.id = none := by
    rw [parentOf?, hu.get?_of_mem hmem, Option.bind_some, htop]
    rfl
  unfold swappable?
  cases c.isConference with
  | false => simp [hparent]
  | true => cases h : c.canSwapLegs && !c.can .noChildren <;> simp [Option.filter, h]

theorem swappable?_eq_some_iff (hu : t.UniqueIds) (hc : t.activeCall? = some c) : swappable? t c = some id ↔
    (c.isConference = true ∧ c.can .swap = true ∧ c.can .noChildren = false ∧ c.mergedBefore = false) ∧ c.id = id := by
  rw [swappable?_eq hu hc, Option.ite_none_right_eq_some, Option.some.injEq, Call.canSwapLegs]
  simp only [Bool.and_eq_true, Bool.not_eq_true']
  tauto

theorem accept_eq_nil_iff : accept t = [] ↔ t.ringing? = none ∧ t.held? = none := by
  unfold accept
  cases t.ringing? with
  | some r => simp
  | none => cases t.held? <;> simp

theorem operations_holdActive (t : CallTable) : holdActive.operations t =
    if accept t = [] then (t.activeCall?.map (setAside t)).getD [] else accept t := by
  rw [operations]
  cases accept t with
  | nil => cases t.activeCall? <;> rfl
  | cons o os => rfl

theorem swap_not_mem_accept : Operation.swap id ∉ accept t := by
  unfold accept
  split <;> simp

theorem swap_mem_setAside_iff : Operation.swap id ∈ setAside t c ↔ swappable? t c = some id := by
  unfold setAside
  cases swappable? t c with
  | none => cases c.can .hold <;> simp
  | some j => simp [eq_comm]

theorem swap_mem_holdActive_iff : Operation.swap id ∈ holdActive.operations t ↔
    accept t = [] ∧ ∃ c, t.activeCall? = some c ∧ swappable? t c = some id := by
  rw [operations_holdActive]
  by_cases h : accept t = []
  · rw [if_pos h]
    cases t.activeCall? with
    | none => simp [h]
    | some c => simp [h, swap_mem_setAside_iff]
  · rw [if_neg h]
    exact iff_of_false swap_not_mem_accept fun hn => h hn.1

theorem swap_not_mem_joinTo : Operation.swap id ∉ joinTo c := by
  unfold joinTo
  cases c.can .merge with
  | true => simp
  | false => cases c.conferenceable <;> simp

/-- Only the active call is ever swapped. -/
theorem active?_of_swap_mem (hu : t.UniqueIds) {k : CallHold} (h : Operation.swap id ∈ k.operations t) :
    t.active? = some id := by
  cases k with
  | releaseHeld =>
    simp only [operations] at h
    split at h <;> simp at h
  | releaseActive =>
    rcases List.mem_append.mp h with h | h
    · simp at h
    · exact absurd h swap_not_mem_accept
  | holdActive =>
    obtain ⟨-, c, hc, hswap⟩ := swap_mem_holdActive_iff.mp h
    rw [active?_of_activeCall? hc, ((swappable?_eq_some_iff hu hc).mp hswap).2]
  | addHeld =>
    cases hc : t.activeCall? with
    | none =>
      rw [operations, hc] at h
      cases h
    | some c =>
      rw [operations, hc] at h
      exact absurd h swap_not_mem_joinTo

/-! ### How many operations -/

theorem accept_cases (t : CallTable) :
    accept t = [] ∨ (∃ id, accept t = [.answer id]) ∨ ∃ id, accept t = [.unhold id] := by
  unfold accept
  split
  · exact Or.inr (Or.inl ⟨_, rfl⟩)
  · exact Or.inr (Or.inr ⟨_, rfl⟩)
  · exact Or.inl rfl

theorem length_setAside_le : (setAside t c).length ≤ 1 := by
  unfold setAside
  split
  · exact Nat.le_refl 1
  · split <;> simp

theorem length_joinTo_le : (joinTo c).length ≤ 1 := by
  unfold joinTo
  split
  · exact Nat.le_refl 1
  · split <;> simp

theorem length_getD_map_le {f : Call → List Operation} (hf : ∀ c, (f c).length ≤ 1) (c? : Option Call) :
    ((c?.map f).getD []).length ≤ 1 := by
  cases c? with
  | none => exact Nat.zero_le 1
  | some c => exact hf c

/-- At most one operation, or the active call is released and then another one accepted. -/
theorem operations_cases (t : CallTable) (k : CallHold) :
    (k.operations t).length ≤ 1 ∨ (k = .releaseActive ∧
      ∃ a b, k.operations t = [.disconnect a, .answer b] ∨ k.operations t = [.disconnect a, .unhold b]) := by
  cases k with
  | releaseHeld =>
    refine Or.inl ?_
    rw [operations]
    split <;> simp
  | releaseActive =>
    rw [operations]
    cases t.active? with
    | none =>
      refine Or.inl ?_
      rcases accept_cases t with h | ⟨b, h⟩ | ⟨b, h⟩ <;> simp [h]
    | some a =>
      rcases accept_cases t with h | ⟨b, h⟩ | ⟨b, h⟩
      · simp [h]
      · exact Or.inr ⟨rfl, a, b, Or.inl (by rw [h]; rfl)⟩
      · exact Or.inr ⟨rfl, a, b, Or.inr (by rw [h]; rfl)⟩
  | holdActive =>
    refine Or.inl ?_
    rw [operations_holdActive]
    split
    · exact length_getD_map_le (fun _ => length_setAside_le) _
    · rcases accept_cases t with h | ⟨b, h⟩ | ⟨b, h⟩ <;> simp [h]
  | addHeld => exact Or.inl (length_getD_map_le (fun _ => length_joinTo_le) _)

end CallHold
end HandsFree

import HandsFree.Account
import Mathlib.Data.List.Basic
import Mathlib.Data.List.Induction

/-! What a registry answers, told by the registrations it was built from. A registration counts until the next one for
    the same handle or scheme. -/

namespace HandsFree

inductive Registration
  | account (account : Account)
  | default (scheme : String) (handle : AccountHandle)

namespace Registration
variable {p : Registration → Prop} {rs : List Registration} {r x : Registration}

def IsFor (handle : AccountHandle) : Registration → Prop
  | .account a => a.handle = handle
  | .default _ _ => False

def IsDefaultOf (scheme : String) : Registration → Prop
  | .account _ => False
  | .default s _ => s = scheme

/-- The last registration of a kind. -/
def IsLatest (p : Registration → Prop) (rs : List Registration) (x : Registration) : Prop :=
  p x ∧ ∃ before after, rs = before ++ x :: after ∧ ∀ y ∈ after, ¬p y

theorem not_isLatest_nil : ¬IsLatest p [] x := by
  rintro ⟨-, before, after, h, -⟩
  simp at h

theorem isLatest_concat_of_pos (h : p r) : IsLatest p (rs ++ [r]) x ↔ x = r := by
  constructor
  · rintro ⟨-, before, after, hrs, hafter⟩
    rcases List.eq_nil_or_concat' after with rfl | ⟨middle, last, rfl⟩
    · exact (List.cons.inj (List.append_inj_right' hrs rfl)).1.symm
    · rw [← List.cons_append, ← List.append_assoc] at hrs
      have hlast : r = last := (List.cons.inj (List.append_inj_right' hrs rfl)).1
      exact absurd (hlast ▸ h) (hafter last (List.mem_append_right middle (List.mem_singleton_self last)))
  · intro hx
    exact ⟨hx ▸ h, rs, [], hx ▸ rfl, List.forall_mem_nil _⟩

theorem isLatest_concat_of_neg (h : ¬p r) : IsLatest p (rs ++ [r]) x ↔ IsLatest p rs x := by
  constructor
  · rintro ⟨hx, before, after, hrs, hafter⟩
    rcases List.eq_nil_or_concat' after with rfl | ⟨middle, last, rfl⟩
    · have hlast : r = x := (List.cons.inj (List.append_inj_right' hrs rfl)).1
      exact absurd (hlast ▸ hx) h
    · rw [← List.cons_append, ← List.append_assoc] at hrs
      exact ⟨hx, before, middle, List.append_inj_left' hrs rfl, fun y hy => hafter y (List.mem_append_left [last] hy)⟩
  · rintro ⟨hx, before, after, rfl, hafter⟩
    refine ⟨hx, before, after ++ [r], by simp, fun y hy => ?_⟩
    rcases List.mem_append.mp hy with hy | hy
    · exact hafter y hy
    · exact List.mem_singleton.mp hy ▸ h

end Registration

namespace Registry
open Registration
variable {rs : List Registration} {bare : Bool}

def register (r : Registry) : Registration → Registry
  | .account a => r.addAccount a
  | .default scheme handle => r.setDefault scheme handle

def ofRegistrations (rs : List Registration) : Registry := rs.foldl register {}

/-- The registry after the registrations, oldest first. A bare registry knows accounts but no defaults. -/
def build (bare : Bool) (rs : List Registration) : Registry :=
  if bare then (ofRegistrations rs).withoutDefaults else ofRegistrations rs

theorem ofRegistrations_concat (rs : List Registration) (r : Registration) :
    ofRegistrations (rs ++ [r]) = (ofRegistrations rs).register r := List.foldl_concat ..

theorem account?_ofRegistrations {handle : AccountHandle} {a : Account} :
    (ofRegistrations rs).account? handle = some a ↔ IsLatest (IsFor handle) rs (.account a) := by
  induction rs using List.reverseRecOn with
  | nil => exact iff_of_false nofun not_isLatest_nil
  | append_singleton rs r ih =>
    rw [ofRegistrations_concat]
    cases r with
    | account b =>
      rw [register, account?_addAccount]
      by_cases hb : b.handle = handle
      · have hfor : IsFor handle (.account b) := hb
        rw [if_pos hb, isLatest_concat_of_pos hfor, Option.some.injEq, account.injEq, eq_comm]
      · have hnot : ¬IsFor handle (.account b) := hb
        rw [if_neg hb, isLatest_concat_of_neg hnot, ih]
    | default scheme h =>
      have hnot : ¬IsFor handle (.default scheme h) := id
      rw [isLatest_concat_of_neg hnot, ← ih]
      rfl

theorem default?_ofRegistrations {scheme : String} {handle : AccountHandle} :
    (ofRegistrations rs).default? scheme = some handle ↔ IsLatest (IsDefaultOf scheme) rs (.default scheme handle) := by
  induction rs using List.reverseRecOn with
  | nil => exact iff_of_false nofun not_isLatest_nil
  | append_singleton rs r ih =>
    rw [ofRegistrations_concat]
    cases r with
    | account b =>
      have hnot : ¬IsDefaultOf scheme (.account b) := id
      rw [isLatest_concat_of_neg hnot, ← ih]
      rfl
    | default s h =>
      rw [register, default?_setDefault]
      by_cases hs : scheme = s
      · subst hs
        have hof : IsDefaultOf scheme (.default scheme h) := rfl
        rw [if_pos rfl, isLatest_concat_of_pos hof, Option.some.injEq, default.injEq, eq_comm]
        exact (and_iff_right rfl).symm
      · have hnot : ¬IsDefaultOf scheme (.default s h) := fun e => hs e.symm
        rw [if_neg hs, isLatest_concat_of_neg hnot, ih]

theorem account?_build {handle : AccountHandle} {a : Account} :
    (build bare rs).account? handle = some a ↔ IsLatest (IsFor handle) rs (.account a) := by
  cases bare <;> exact account?_ofRegistrations

theorem default?_build {scheme : String} {handle : AccountHandle} : (build bare rs).default? scheme = some handle ↔
    bare = false ∧ IsLatest (IsDefaultOf scheme) rs (.default scheme handle) := by
  cases bare with
  | false => exact default?_ofRegistrations.trans (and_iff_right rfl).symm
  | true => exact iff_of_false nofun fun h => Bool.noConfusion h.1

end Registry
end HandsFree

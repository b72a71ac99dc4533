import HandsFree.CallTable.Links
import HandsFree.Proofs.CallTable.Lookup
import Mathlib.Logic.Function.Basic

/-! Changes of the record under an id. Where ids are unique, the members of the changed table are read off
    the old ones. A change of state keeps ids and links, and with them whether the links are settled: all
    that it changes is the part that the call plays. -/

namespace HandsFree
namespace CallTable
variable {t : CallTable} {id j : CallId} {f g : Call → Call} {c : Call}

theorem modifyFirst_eq_map : ∀ {cs : List Call}, (cs.map Call.id).Nodup →
    modifyFirst id f cs = cs.map fun c => if c.id = id then f c else c
  | [], _ => rfl
  | c :: cs, h => by
    rw [List.map_cons, List.nodup_cons] at h
    by_cases hc : c.id = id
    · -- The first record has the id, so no later one has it.
      have hrest : ∀ d ∈ cs, (if d.id = id then f d else d) = d := by
        intro d hd
        refine if_neg fun hdid => h.1 ?_
        rw [hc, ← hdid]
        exact List.mem_map_of_mem hd
      rw [modifyFirst, if_pos hc, List.map_cons, if_pos hc, List.map_congr_left hrest, List.map_id']
    · rw [modifyFirst, if_neg hc, List.map_cons, if_neg hc, modifyFirst_eq_map h.2]

theorem UniqueIds.mem_modify (hu : t.UniqueIds) :
    c ∈ (t.modify id f).calls ↔ ∃ d ∈ t.calls, c = if d.id = id then f d else d := by
  rw [modify, modifyFirst_eq_map hu, List.mem_map]
  exact exists_congr fun d => and_congr_right fun _ => eq_comm

theorem modifyFirst_comm (hij : id ≠ j) (hf : ∀ c, (f c).id = c.id) (hg : ∀ c, (g c).id = c.id) :
    ∀ cs : List Call, modifyFirst j g (modifyFirst id f cs) = modifyFirst id f (modifyFirst j g cs)
  | [] => rfl
  | c :: cs => by
    have ih := modifyFirst_comm hij hf hg cs
    by_cases hi : c.id = id
    · have hj : ¬c.id = j := fun hj => hij (hi.symm.trans hj)
      simp [modifyFirst, hi, hf, hij]
    · by_cases hj : c.id = j
      · simp [modifyFirst, hj, hg, hij.symm]
      · simp [modifyFirst, hi, hj, ih]

theorem all_modifyFirst {p : Call → Bool} (hp : ∀ c, p (f c) = p c) :
    ∀ cs : List Call, (modifyFirst id f cs).all p = cs.all p
  | [] => rfl
  | c :: cs => by
    by_cases hc : c.id = id
    · simp [modifyFirst, hc, hp]
    · simp [modifyFirst, hc, all_modifyFirst hp cs]

/-! ### Look-ups -/

/-- A change that keeps ids puts another record under the one id. -/
theorem get?_modify_eq_update (hf : ∀ c, (f c).id = c.id) (hc : t.get? id = some c) :
    (t.modify id f).get? = Function.update t.get? id (some (f c)) := by
  funext x
  rw [get?_modify hf]
  by_cases hx : x = id
  · rw [if_pos hx, hx, hc, Function.update_self, Option.map_some]
  · rw [if_neg hx, Function.update_of_ne hx]

theorem ids_erase (t : CallTable) (id : CallId) : (t.erase id).ids = t.ids.erase id := by
  rw [ids, ids, List.erase_eq_eraseP', List.eraseP_map]
  rfl

theorem UniqueIds.get?_erase (hu : t.UniqueIds) : (t.erase id).get? = Function.update t.get? id none := by
  funext x
  by_cases hx : x = id
  · have hnot : ¬(t.erase id).contains id = true := by
      rw [contains_iff, ids_erase]
      exact List.Nodup.not_mem_erase hu
    rw [hx, Function.update_self]
    simpa [contains] using hnot
  · rw [Function.update_of_ne hx]
    ext c
    rw [(hu.erase id).get?_eq_some_iff, hu.get?_eq_some_iff]
    refine and_congr_left fun hc => List.mem_eraseP_of_neg ?_
    rw [hc]
    simpa using hx

/-! ### Changes of state -/

end CallTable

def Call.withState (x : CallState) (c : Call) : Call := { c with state := x }

@[simp] theorem Call.id_withState (x : CallState) (c : Call) : (c.withState x).id = c.id := rfl
@[simp] theorem Call.state_withState (x : CallState) (c : Call) : (c.withState x).state = x := rfl
@[simp] theorem Call.parent_withState (x : CallState) (c : Call) : (c.withState x).parent = c.parent := rfl

namespace CallTable
variable {t : CallTable} {id j : CallId} {c : Call} {x y : CallState}

/-- Puts the call under the id into another state. -/
def setState (t : CallTable) (id : CallId) (x : CallState) : CallTable := t.modify id (Call.withState x)

@[simp] theorem ids_setState : (t.setState id x).ids = t.ids := ids_modify (fun c h => (c.id_withState x).trans h) t

theorem UniqueIds.setState (hu : t.UniqueIds) : (t.setState id x).UniqueIds := by
  unfold UniqueIds
  rw [ids_setState]
  exact hu

theorem UniqueIds.mem_setState (hu : t.UniqueIds) : c ∈ (t.setState id x).calls ↔
    ∃ d ∈ t.calls, c = d.withState (if d.id = id then x else d.state) := by
  rw [CallTable.setState, hu.mem_modify]
  refine exists_congr fun d => and_congr_right fun _ => ?_
  split <;> rfl

theorem setState_comm (hij : id ≠ j) :
    (t.setState id x).setState j y = (t.setState j y).setState id x :=
  congrArg CallTable.mk (modifyFirst_comm hij (Call.id_withState x) (Call.id_withState y) t.calls)

theorem get?_setState : (t.setState id x).get? j =
    (t.get? j).map fun c => c.withState (if j = id then x else c.state) := by
  rw [setState, get?_modify (Call.id_withState x)]
  split
  · rfl
  · exact Option.map_id'.symm

theorem any_get?_setState {p : Call → Bool} (hp : ∀ z c, p (Call.withState z c) = p c) :
    ((t.setState id x).get? j).any p = (t.get? j).any p := by
  rw [get?_setState]
  cases t.get? j with
  | none => rfl
  | some c => exact hp _ c

theorem all_setState {p : Call → Bool} (hp : ∀ z c, p (Call.withState z c) = p c) :
    (t.setState id x).calls.all p = t.calls.all p :=
  all_modifyFirst (hp x) t.calls

theorem parentExposes_setState : (t.setState id x).parentExposes = t.parentExposes := by
  funext c
  unfold parentExposes
  cases c.parent with
  | none => rfl
  | some parent => exact any_get?_setState fun _ _ => rfl

theorem conferenceSettled_setState : (t.setState id x).conferenceSettled j = t.conferenceSettled j := by
  unfold conferenceSettled
  rw [get?_setState]
  cases t.get? j with
  | none => rfl
  | some p =>
    have hback : ∀ child, ((t.setState id x).get? child).any (·.parent == some j) =
        (t.get? child).any (·.parent == some j) := fun child => any_get?_setState fun _ _ => rfl
    have hclaim : (t.setState id x).calls.all (fun c => c.parent != some j || p.children.contains c.id) =
        t.calls.all fun c => c.parent != some j || p.children.contains c.id := all_setState fun _ _ => rfl
    simp only [Option.map_some, Call.withState, hback, hclaim]
    rfl

@[simp] theorem isSettled_setState : (t.setState id x).isSettled = t.isSettled := by
  unfold isSettled
  simp only [conferenceSettled_setState, parentExposes_setState]
  rw [all_setState fun _ _ => rfl, all_setState fun _ _ => rfl]

end CallTable

end HandsFree

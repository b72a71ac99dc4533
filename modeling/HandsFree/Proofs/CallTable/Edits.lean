import HandsFree.Proofs.CallTable.Joining

/-! What each edit does to a table. A call is inserted or taken out, joins a conference or leaves it. Where ids
    are unique, the table is a map by id that keeps the order of insertion: an edit rewrites the records that it
    names and leaves every other record and every other place alone. -/

namespace HandsFree

/-- The record of a call after `child` joined `parent`. -/
def Call.joined (parent child : CallId) (c : Call) : Call :=
  { c with parent := if c.id = child then some parent else c.parent
           isConference := if c.id = parent then true else c.isConference
           children := if c.id = parent ∧ child ∉ c.children then c.children ++ [child] else c.children }

/-- The record of a call after `child` left `parent`. -/
def Call.departed (parent child : CallId) (c : Call) : Call :=
  { c with parent := if c.id = child then none else c.parent
           children := if c.id = parent then c.children.filter (· != child) else c.children }

/-- No leg is listed twice because of a call that joins. -/
theorem Call.nodup_children_joined {c : Call} (h : c.children.Nodup) (parent child : CallId) :
    (c.joined parent child).children.Nodup := by
  change (if c.id = parent ∧ child ∉ c.children then c.children ++ [child] else c.children).Nodup
  split
  · rename_i hnew
    exact List.concat_eq_append ▸ h.concat hnew.2
  · exact h

theorem Call.nodup_children_departed {c : Call} (h : c.children.Nodup) (parent child : CallId) :
    (c.departed parent child).children.Nodup := by
  change (if c.id = parent then c.children.filter (· != child) else c.children).Nodup
  split
  · exact h.filter _
  · exact h

namespace CallTable

/-- What is done to a table. Joining does nothing if one of the two calls is missing. -/
inductive Edit
  | insert (call : Call)
  | erase (id : CallId)
  | link (parent child : CallId)
  | unlink (child : CallId)

/-- The id under which a record is put or taken out. -/
def Edit.replaces? : Edit → Option CallId
  | insert call => some call.id
  | erase id => some id
  | link _ _ | unlink _ => none

def apply (t : CallTable) : Edit → CallTable
  | .insert call => t.insert call
  | .erase id => t.erase id
  | .link parent child => (t.link? parent child).getD t
  | .unlink child => t.unlink child

variable {t u : CallTable} {c old call : Call} {id parent child : CallId} {before after : List Call}

theorem UniqueIds.of_ids_eq (hu : t.UniqueIds) (h : u.ids = t.ids) : u.UniqueIds := by
  unfold UniqueIds
  rw [h]
  exact hu

/-! ### Insertion -/

theorem UniqueIds.ne_of_mem_before (hu : t.UniqueIds) (h : t.calls = before ++ c :: after) :
    ∀ d ∈ before, d.id ≠ c.id := by
  intro d hd
  have hnodup : ((before ++ c :: after).map Call.id).Nodup := h ▸ hu
  rw [List.map_append, List.map_cons, List.nodup_append] at hnodup
  exact hnodup.2.2 d.id (List.mem_map_of_mem hd) c.id List.mem_cons_self

theorem modifyFirst_append_cons {f : Call → Call} (hc : c.id = id) :
    ∀ {before : List Call}, (∀ d ∈ before, d.id ≠ id) →
      modifyFirst id f (before ++ c :: after) = before ++ f c :: after
  | [], _ => by rw [List.nil_append, modifyFirst, if_pos hc, List.nil_append]
  | d :: before, h => by
    rw [List.forall_mem_cons] at h
    rw [List.cons_append, modifyFirst, if_neg h.1, modifyFirst_append_cons hc h.2, List.cons_append]

/-- A known id keeps its place. -/
theorem UniqueIds.calls_insert_known (hu : t.UniqueIds) (h : t.calls = before ++ old :: after)
    (hid : old.id = call.id) : (t.insert call).calls = before ++ call :: after := by
  have hknown : t.contains call.id = true := by
    rw [contains_iff, ids, h, List.map_append, List.map_cons, hid]
    exact List.mem_append_right _ List.mem_cons_self
  rw [CallTable.insert, if_pos hknown, modify, h]
  exact modifyFirst_append_cons hid (hid ▸ hu.ne_of_mem_before h)

/-- A new id comes last. -/
theorem calls_insert_new (h : call.id ∉ t.ids) : (t.insert call).calls = t.calls ++ [call] := by
  rw [CallTable.insert, if_neg fun hknown => h (contains_iff.mp hknown)]

theorem find?_append_cons_of_ne (hc : c.id ≠ id) :
    (before ++ c :: after).find? (·.id == id) = (before ++ after).find? (·.id == id) := by
  rw [List.find?_append, List.find?_append, List.find?_cons, beq_eq_false_iff_ne.mpr hc]

theorem UniqueIds.get?_insert_of_ne (hu : t.UniqueIds) (hne : call.id ≠ id) : (t.insert call).get? id = t.get? id := by
  rw [get?, get?]
  by_cases hid : call.id ∈ t.ids
  · obtain ⟨old, hold, holdid⟩ := List.mem_map.mp hid
    obtain ⟨before, after, h⟩ := List.append_of_mem hold
    rw [hu.calls_insert_known h holdid, h, find?_append_cons_of_ne hne, find?_append_cons_of_ne (holdid ▸ hne)]
  · rw [calls_insert_new hid, find?_append_cons_of_ne hne, List.append_nil]

/-! ### Removal -/

theorem UniqueIds.calls_erase_known (hu : t.UniqueIds) (h : t.calls = before ++ c :: after) :
    (t.erase c.id).calls = before ++ after := by
  have hbefore : ∀ d ∈ before, ¬(d.id == c.id) = true := fun d hd heq => hu.ne_of_mem_before h d hd (beq_iff_eq.mp heq)
  rw [CallTable.erase, h, List.eraseP_append_right _ hbefore, List.eraseP_cons_of_pos (by simp)]

theorem erase_unknown (h : id ∉ t.ids) : t.erase id = t := by
  have hnone : ∀ c ∈ t.calls, ¬(c.id == id) = true := fun c hc heq => h (beq_iff_eq.mp heq ▸ List.mem_map_of_mem hc)
  rw [CallTable.erase, List.eraseP_of_forall_not hnone]

/-! ### Joining and leaving -/

theorem get?_of_calls_eq_map {g : Call → Call} (h : u.calls = t.calls.map g) (hg : ∀ c, (g c).id = c.id) :
    u.get? id = (t.get? id).map g := by
  rw [get?, get?, h, List.find?_map]
  congr 2
  funext c
  rw [Function.comp_apply, hg]

/-- A change of one record, as a change that looks at every record's id. -/
theorem UniqueIds.calls_modify (hu : t.UniqueIds) {f g : Call → Call} (hself : ∀ c, c.id = id → g c = f c)
    (hother : ∀ c, c.id ≠ id → g c = c) : (t.modify id f).calls = t.calls.map g := by
  rw [modify, modifyFirst_eq_map hu]
  refine List.map_congr_left fun c _ => ?_
  split
  · rename_i hc
    exact (hself c hc).symm
  · rename_i hc
    exact (hother c hc).symm

theorem UniqueIds.calls_setParent (hu : t.UniqueIds) (child : CallId) (p : Option CallId) :
    (t.setParent child p).calls = t.calls.map fun c => { c with parent := if c.id = child then p else c.parent } := by
  refine hu.calls_modify (fun c hc => ?_) fun c hc => ?_
  · rw [if_pos hc]
  · rw [if_neg hc]

theorem UniqueIds.calls_addChild (hu : t.UniqueIds) (parent child : CallId) :
    (t.addChild parent child).calls = t.calls.map fun c =>
      { c with isConference := if c.id = parent then true else c.isConference
               children := if c.id = parent ∧ child ∉ c.children then c.children ++ [child] else c.children } := by
  refine hu.calls_modify (fun c hc => ?_) fun c hc => ?_
  · simp only [hc, if_true, true_and, ite_not]
  · simp only [hc, if_false, false_and]

theorem UniqueIds.calls_dropChild (hu : t.UniqueIds) (parent child : CallId) :
    (t.dropChild parent child).calls = t.calls.map fun c =>
      { c with children := if c.id = parent then c.children.filter (· != child) else c.children } := by
  refine hu.calls_modify (fun c hc => ?_) fun c hc => ?_
  · rw [if_pos hc]
  · rw [if_neg hc]

theorem UniqueIds.link?_known (hu : t.UniqueIds) (hp : parent ∈ t.ids) (hc : child ∈ t.ids) :
    ∃ u, t.link? parent child = some u ∧ u.calls = t.calls.map (Call.joined parent child) := by
  have hset : (t.setParent child (some parent)).UniqueIds := hu.of_ids_eq (ids_setParent ..)
  refine ⟨_, by rw [link?, contains_iff.mpr hp, contains_iff.mpr hc]; rfl, ?_⟩
  rw [hset.calls_addChild, hu.calls_setParent, List.map_map]
  rfl

theorem link?_unknown (h : ¬(parent ∈ t.ids ∧ child ∈ t.ids)) : t.link? parent child = none := by
  rw [link?, if_neg]
  rwa [Bool.and_eq_true, contains_iff, contains_iff]

theorem UniqueIds.calls_unlink_leg (hu : t.UniqueIds) (hc : c ∈ t.calls) (hp : c.parent = some parent) :
    (t.unlink c.id).calls = t.calls.map (Call.departed parent c.id) := by
  have hset : (t.setParent c.id none).UniqueIds := hu.of_ids_eq (ids_setParent ..)
  have hparent : (t.get? c.id).bind (·.parent) = some parent := by rw [hu.get?_of_mem hc, Option.bind_some, hp]
  simp only [unlink, hparent]
  rw [hset.calls_dropChild, hu.calls_setParent, List.map_map]
  rfl

/-- A map by id that keeps the order of insertion: what each edit does to all of the table. -/
structure InsertionOrdered (t : CallTable) : Prop where
  uniqueIds : t.UniqueIds
  insert_known : ∀ before old after call, t.calls = before ++ old :: after → old.id = call.id →
    (t.insert call).calls = before ++ call :: after
  insert_new : ∀ call, call.id ∉ t.ids → (t.insert call).calls = t.calls ++ [call]
  erase_known : ∀ before c after, t.calls = before ++ c :: after → (t.erase c.id).calls = before ++ after
  erase_unknown : ∀ id, id ∉ t.ids → t.erase id = t
  link_known : ∀ parent ∈ t.ids, ∀ child ∈ t.ids,
    ∃ u, t.link? parent child = some u ∧ u.calls = t.calls.map (Call.joined parent child)
  link_unknown : ∀ parent child, ¬(parent ∈ t.ids ∧ child ∈ t.ids) →
    t.link? parent child = none ∧ t.apply (.link parent child) = t
  unlink_leg : ∀ c ∈ t.calls, ∀ parent, c.parent = some parent →
    (t.unlink c.id).calls = t.calls.map (Call.departed parent c.id)
  unlink_other : ∀ id, (∀ c ∈ t.calls, c.id = id → c.parent = none) → t.unlink id = t
  nodup_children : ∀ c ∈ t.calls, c.children.Nodup → ∀ parent child, (c.joined parent child).children.Nodup

theorem apply_link_unknown (h : ¬(parent ∈ t.ids ∧ child ∈ t.ids)) : t.apply (.link parent child) = t := by
  rw [apply, link?_unknown h, Option.getD_none]

theorem UniqueIds.insertionOrdered (hu : t.UniqueIds) : t.InsertionOrdered where
  uniqueIds := hu
  insert_known _ _ _ _ := hu.calls_insert_known
  insert_new _ := calls_insert_new
  erase_known _ _ _ := hu.calls_erase_known
  erase_unknown _ := erase_unknown
  link_known _ hp _ hc := hu.link?_known hp hc
  link_unknown _ _ h := ⟨link?_unknown h, apply_link_unknown h⟩
  unlink_leg _ hc _ hp := hu.calls_unlink_leg hc hp
  unlink_other _ h := unlink_of_topLevel fun c hc => h c (mem_of_get? hc) (id_of_get? hc)
  nodup_children _ _ h parent child := Call.nodup_children_joined h parent child

theorem UniqueIds.apply (hu : t.UniqueIds) (e : Edit) : (t.apply e).UniqueIds := by
  cases e with
  | insert call => exact hu.insert call
  | erase id => exact hu.erase id
  | link parent child =>
    rw [CallTable.apply]
    cases h : t.link? parent child with
    | none => exact hu
    | some u => exact hu.of_ids_eq (ids_of_link? h)
  | unlink child => exact hu.of_ids_eq (ids_unlink t child)

end CallTable
end HandsFree

import HandsFree.Call

/-! The calls that the call manager tracks, in its order.

    A look-up by id answers with the first record that has it. The table itself does not force ids apart:
    the call manager may renumber a record. `UniqueIds` says that all ids differ; inserting and erasing
    keep it. -/

namespace HandsFree

structure CallTable where
  calls : List Call := []
  deriving DecidableEq

namespace CallTable

def ids (t : CallTable) : List CallId := t.calls.map Call.id

def UniqueIds (t : CallTable) : Prop := t.ids.Nodup

/-- The first record with the given id. -/
def get? (t : CallTable) (id : CallId) : Option Call := t.calls.find? (·.id == id)

def contains (t : CallTable) (id : CallId) : Bool := (t.get? id).isSome

/-- Applies `f` to the first record with the given id and leaves all others alone. -/
def modifyFirst (id : CallId) (f : Call → Call) : List Call → List Call
  | [] => []
  | c :: cs => if c.id = id then f c :: cs else c :: modifyFirst id f cs

/-- Changes the first record with the given id, if there is one. -/
def modify (t : CallTable) (id : CallId) (f : Call → Call) : CallTable :=
  ⟨modifyFirst id f t.calls⟩

/-- Puts `call` in the place of the first record with its id, or at the end if there is none. -/
def insert (t : CallTable) (call : Call) : CallTable :=
  if t.contains call.id then t.modify call.id fun _ => call else ⟨t.calls ++ [call]⟩

/-- Takes out the first record with the given id. -/
def erase (t : CallTable) (id : CallId) : CallTable := ⟨t.calls.eraseP (·.id == id)⟩

/-! ### Look-ups -/

theorem mem_of_get? {t : CallTable} {id : CallId} {c : Call} (h : t.get? id = some c) : c ∈ t.calls :=
  List.mem_of_find?_eq_some h

theorem id_of_get? {t : CallTable} {id : CallId} {c : Call} (h : t.get? id = some c) : c.id = id := by
  simpa using List.find?_some h

theorem contains_iff {t : CallTable} {id : CallId} : t.contains id = true ↔ id ∈ t.ids := by
  simp [contains, get?, ids, List.find?_isSome]

theorem find?_modifyFirst {f : Call → Call} (hf : ∀ c, (f c).id = c.id) (id j : CallId) :
    ∀ cs : List Call, (modifyFirst id f cs).find? (·.id == j) =
      if j = id then (cs.find? (·.id == j)).map f else cs.find? (·.id == j)
  | [] => by simp [modifyFirst]
  | c :: cs => by
    have ih := find?_modifyFirst hf id j cs
    by_cases hc : c.id = id
    · by_cases hj : j = id
      · simp [modifyFirst, hc, hj, hf]
      · have hne : ¬ id = j := fun e => hj e.symm
        simp [modifyFirst, hc, hj, hf, hne]
    · by_cases hcj : c.id = j
      · have hj : ¬ j = id := fun e => hc (hcj.trans e)
        simp [modifyFirst, hcj, hj]
      · simp [modifyFirst, hc, hcj, ih]

/-- A change that keeps ids is seen by a look-up of the changed id and by no other. -/
theorem get?_modify {f : Call → Call} (hf : ∀ c, (f c).id = c.id) (t : CallTable) (id j : CallId) :
    (t.modify id f).get? j = if j = id then (t.get? j).map f else t.get? j :=
  find?_modifyFirst hf id j t.calls

theorem get?_insert_self (t : CallTable) (call : Call) : (t.insert call).get? call.id = some call := by
  by_cases h : t.contains call.id
  · obtain ⟨c, hc⟩ := Option.isSome_iff_exists.mp h
    have hself : ∀ cs : List Call, (cs.find? (·.id == call.id)).isSome →
        (modifyFirst call.id (fun _ => call) cs).find? (·.id == call.id) = some call := by
      intro cs
      induction cs with
      | nil => simp
      | cons d ds ih =>
        by_cases hd : d.id = call.id
        · simp [modifyFirst, hd]
        · simpa [modifyFirst, hd] using ih
    simpa [insert, h, modify, get?] using hself t.calls h
  · have hn : t.calls.find? (·.id == call.id) = none := by simpa [contains, get?] using h
    simp [insert, h, get?, List.find?_append, hn]

/-! ### Order and ids -/

theorem map_id_modifyFirst {id : CallId} {f : Call → Call} (hf : ∀ c, c.id = id → (f c).id = id) :
    ∀ cs : List Call, (modifyFirst id f cs).map Call.id = cs.map Call.id
  | [] => rfl
  | c :: cs => by
    by_cases hc : c.id = id
    · simp [modifyFirst, hc, hf c hc]
    · simp [modifyFirst, hc, map_id_modifyFirst hf cs]

/-- A change that keeps the id keeps every position. -/
theorem ids_modify {f : Call → Call} {id : CallId} (hf : ∀ c, c.id = id → (f c).id = id)
    (t : CallTable) : (t.modify id f).ids = t.ids :=
  map_id_modifyFirst hf t.calls

/-- Inserting a known id keeps every position, and a new id comes last. -/
theorem ids_insert (t : CallTable) (call : Call) :
    (t.insert call).ids = if t.contains call.id then t.ids else t.ids ++ [call.id] := by
  by_cases h : t.contains call.id
  · rw [insert, if_pos h, if_pos h, ids_modify (fun _ _ => rfl)]
  · rw [insert, if_neg h, if_neg h]
    simp [ids]

theorem UniqueIds.insert {t : CallTable} (h : t.UniqueIds) (call : Call) : (t.insert call).UniqueIds := by
  unfold UniqueIds at h ⊢
  rw [ids_insert]
  by_cases hc : t.contains call.id
  · rwa [if_pos hc]
  · rw [if_neg hc, List.nodup_append]
    refine ⟨h, by simp, fun a ha b hb hab => hc (contains_iff.mpr ?_)⟩
    rw [List.mem_singleton] at hb
    exact hb ▸ hab ▸ ha

theorem UniqueIds.erase {t : CallTable} (h : t.UniqueIds) (id : CallId) : (t.erase id).UniqueIds :=
  (List.eraseP_sublist.map Call.id).nodup h

end CallTable

end HandsFree

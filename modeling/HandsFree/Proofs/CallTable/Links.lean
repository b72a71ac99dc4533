import HandsFree.Proofs.CallTable.Settled
import HandsFree.Proofs.CallTable.Update

/-! The links of a table by id alone: which parent a call names, which calls it lists, and whether it is a
    conference that shows its legs. Nothing else decides whether links are settled. A write of one end of a
    link changes one of the three at one place, also where a call is linked to itself. -/

namespace HandsFree.CallTable

/-- Who names whom. A call can list others without being a conference. -/
@[ext] structure Links where
  parent : CallId → Option CallId
  lists : CallId → CallId → Prop
  exposes : CallId → Prop

namespace Links

/-- The two ends of every link agree. -/
structure Agree (l : Links) : Prop where
  nonempty : ∀ p, l.exposes p → ∃ c, l.lists p c
  listed : ∀ p, l.exposes p → ∀ c, l.lists p c ↔ l.parent c = some p
  parent : ∀ c p, l.parent c = some p → l.exposes p

def setParent (l : Links) (c : CallId) (p : Option CallId) : Links :=
  { l with parent := Function.update l.parent c p }

def addChild (l : Links) (p c : CallId) : Links :=
  { l with lists := fun x y => l.lists x y ∨ (x = p ∧ y = c) }

def dropChild (l : Links) (p c : CallId) : Links :=
  { l with lists := fun x y => l.lists x y ∧ ¬(x = p ∧ y = c) }

/-- The call becomes a conference, which shows its legs under the given condition. -/
def expose (l : Links) (p : CallId) (shown : Prop) : Links :=
  { l with exposes := fun x => l.exposes x ∨ (x = p ∧ shown) }

/-- Without the record of the call. Others still name it. -/
def erase (l : Links) (id : CallId) : Links where
  parent := Function.update l.parent id none
  lists p c := p ≠ id ∧ l.lists p c
  exposes p := p ≠ id ∧ l.exposes p

variable {l : Links} {c p q x : CallId} {shown : Prop}

theorem parent_setParent_some_iff : (l.setParent c (some p)).parent x = some q ↔
    (x = c ∧ p = q) ∨ (x ≠ c ∧ l.parent x = some q) := by
  by_cases hx : x = c
  · simp [setParent, hx]
  · simp [setParent, hx]

theorem parent_setParent_none_iff : (l.setParent c none).parent x = some q ↔ x ≠ c ∧ l.parent x = some q := by
  by_cases hx : x = c
  · simp [setParent, hx]
  · simp [setParent, hx]

theorem expose_of_exposes (h : l.exposes p) : l.expose p shown = l := by
  ext x
  · rfl
  · rfl
  · constructor
    · rintro (hx | ⟨rfl, -⟩)
      · exact hx
      · exact h
    · exact Or.inl

end Links

/-- The links of a table. -/
def links (t : CallTable) : Links where
  parent id := (t.get? id).bind (·.parent)
  lists p c := ∃ d ∈ t.get? p, c ∈ d.children
  exposes p := ∃ d ∈ t.get? p, d.exposesChildren = true

section
variable {t : CallTable} {c p : CallId} {d : Call}

theorem parent_links (hd : t.get? p = some d) : t.links.parent p = d.parent := by
  simp [links, hd]

theorem lists_links (hd : t.get? p = some d) : t.links.lists p c ↔ c ∈ d.children := by
  simp [links, hd]

theorem exposes_links (hd : t.get? p = some d) : t.links.exposes p ↔ d.exposesChildren = true := by
  simp [links, hd]

/-! ### Agreement -/

theorem UniqueIds.parent_links_eq_some_iff (hu : t.UniqueIds) :
    t.links.parent c = some p ↔ ∃ d ∈ t.calls, d.id = c ∧ d.parent = some p := by
  simp only [links, Option.bind_eq_some_iff, hu.get?_eq_some_iff, and_assoc]

theorem UniqueIds.exposes_links_iff (hu : t.UniqueIds) :
    t.links.exposes p ↔ ∃ d ∈ t.calls, d.id = p ∧ d.exposesChildren = true := by
  simp only [links, Option.mem_def, hu.get?_eq_some_iff, and_assoc]

theorem isSettled_iff_agree (hu : t.UniqueIds) : t.isSettled = true ↔ t.links.Agree := by
  rw [isSettled_iff hu]
  constructor
  · intro h
    refine ⟨fun p hp => ?_, fun p hp c => ?_, fun c p hc => ?_⟩
    · obtain ⟨d, hd, rfl, he⟩ := hu.exposes_links_iff.mp hp
      obtain ⟨id, hid⟩ := List.exists_mem_of_ne_nil _ (h.nonempty d hd he)
      exact ⟨id, (lists_links (hu.get?_of_mem hd)).mpr hid⟩
    · obtain ⟨d, hd, rfl, he⟩ := hu.exposes_links_iff.mp hp
      rw [lists_links (hu.get?_of_mem hd), h.listed d hd he, hu.parent_links_eq_some_iff]
    · obtain ⟨d, hd, -, hpar⟩ := hu.parent_links_eq_some_iff.mp hc
      exact hu.exposes_links_iff.mpr (h.parent d hd p hpar)
  · intro h
    refine ⟨fun d hd he => ?_, fun d hd he id => ?_, fun d hd p hpar => ?_⟩
    · obtain ⟨id, hid⟩ := h.nonempty d.id (hu.exposes_links_iff.mpr ⟨d, hd, rfl, he⟩)
      exact List.ne_nil_of_mem ((lists_links (hu.get?_of_mem hd)).mp hid)
    · have hexp : t.links.exposes d.id := hu.exposes_links_iff.mpr ⟨d, hd, rfl, he⟩
      rw [← lists_links (hu.get?_of_mem hd), h.listed d.id hexp, hu.parent_links_eq_some_iff]
    · exact hu.exposes_links_iff.mp (h.parent d.id p (hu.parent_links_eq_some_iff.mpr ⟨d, hd, rfl, hpar⟩))

/-! ### Writes -/

/-- Another record under one id, or none, changes the links there and nowhere else. -/
theorem links_eq_of_get? {u : CallTable} {r : Option Call} (h : u.get? = Function.update t.get? p r) :
    u.links = { parent := Function.update t.links.parent p (r.bind (·.parent))
                lists := Function.update t.links.lists p fun c => ∃ d ∈ r, c ∈ d.children
                exposes := Function.update t.links.exposes p (∃ d ∈ r, d.exposesChildren = true) } := by
  ext x
  all_goals
    by_cases hx : x = p
    · subst hx
      simp [links, h]
    · simp [links, h, hx]

theorem links_setParent (hd : t.get? c = some d) (q : Option CallId) :
    (t.setParent c q).links = t.links.setParent c q := by
  rw [setParent, links_eq_of_get? (get?_modify_eq_update (by exact fun _ => rfl) hd)]
  refine Links.ext rfl (Function.update_eq_self_iff.mpr ?_) (Function.update_eq_self_iff.mpr ?_)
  · funext x
    simp [lists_links hd]
  · simp [exposes_links hd, Call.exposesChildren, Call.can]

theorem links_dropChild (hd : t.get? p = some d) (c : CallId) :
    (t.dropChild p c).links = t.links.dropChild p c := by
  rw [dropChild, links_eq_of_get? (get?_modify_eq_update (by exact fun _ => rfl) hd)]
  refine Links.ext (Function.update_eq_self_iff.mpr ?_) (Function.update_eq_iff.mpr ⟨?_, fun x hx => ?_⟩)
    (Function.update_eq_self_iff.mpr ?_)
  · simp [parent_links hd]
  · funext y
    simp [Links.dropChild, lists_links hd]
  · simp [Links.dropChild, hx]
  · simp [exposes_links hd, Call.exposesChildren, Call.can]

theorem links_addChild (hd : t.get? p = some d) (c : CallId) :
    (t.addChild p c).links = (t.links.addChild p c).expose p (d.can .noChildren = false) := by
  have hmem : ∀ y, (y ∈ if c ∈ d.children then d.children else d.children ++ [c]) ↔ y ∈ d.children ∨ y = c := by
    intro y
    by_cases hc : c ∈ d.children
    · rw [if_pos hc, or_iff_left_of_imp]
      rintro rfl
      exact hc
    · rw [if_neg hc, List.mem_append, List.mem_singleton]
  rw [addChild, links_eq_of_get? (get?_modify_eq_update (by exact fun _ => rfl) hd)]
  refine Links.ext (Function.update_eq_self_iff.mpr ?_) (Function.update_eq_iff.mpr ⟨?_, fun x hx => ?_⟩)
    (Function.update_eq_iff.mpr ⟨?_, fun x hx => ?_⟩)
  · simp [parent_links hd]
  · funext y
    simp [Links.addChild, Links.expose, lists_links hd, hmem]
  · simp [Links.addChild, Links.expose, hx]
  · simp [Links.addChild, Links.expose, exposes_links hd, Call.exposesChildren, Call.can]
  · simp [Links.addChild, Links.expose, hx]

theorem links_erase (hu : t.UniqueIds) (p : CallId) : (t.erase p).links = t.links.erase p := by
  rw [links_eq_of_get? hu.get?_erase]
  refine Links.ext rfl (Function.update_eq_iff.mpr ⟨?_, fun x hx => ?_⟩)
    (Function.update_eq_iff.mpr ⟨?_, fun x hx => ?_⟩)
  · simp [Links.erase]
  · simp [Links.erase, hx]
  · simp [Links.erase]
  · simp [Links.erase, hx]

end

end HandsFree.CallTable

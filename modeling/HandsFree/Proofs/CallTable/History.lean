import HandsFree.Proofs.CallTable.Edits
import Mathlib.Data.List.Induction

/-! Tables told by their history. From the empty table on, edits are made in any order. Under an id stands the call
    that was inserted last, but for its links: those are as joining and leaving since then left them. -/

namespace HandsFree
namespace CallTable

/-- The table after the edits, the oldest first. -/
def ofEdits (edits : List Edit) : CallTable := edits.foldl apply {}

variable {t : CallTable} {c d : Call} {id : CallId} {e : Edit} {edits since : List Edit}

/-! ### Runs of edits -/

theorem ofEdits_concat (edits : List Edit) (e : Edit) : ofEdits (edits ++ [e]) = (ofEdits edits).apply e :=
  List.foldl_concat ..

theorem uniqueIds_ofEdits (edits : List Edit) : (ofEdits edits).UniqueIds := by
  induction edits using List.reverseRecOn with
  | nil => exact List.nodup_nil
  | append_singleton edits e ih =>
    rw [ofEdits_concat]
    exact ih.apply e

/-! ### What stands under an id -/

/-- The call was inserted, and since then nothing was put or taken out under its id. -/
structure LastInserted (edits : List Edit) (c : Call) (since : List Edit) : Prop where
  inserted : ∃ before, edits = before ++ .insert c :: since
  untouched : ∀ e ∈ since, e.replaces? ≠ some c.id

/-- The record `d` is `c` but for its links, and those differ by what joined and left since. -/
structure Relinked (since : List Edit) (c d : Call) : Prop where
  other : d = { c with parent := d.parent, isConference := d.isConference, children := d.children }
  parent : d.parent = c.parent ∨ (d.parent = none ∧ .unlink c.id ∈ since) ∨
    ∃ p, d.parent = some p ∧ .link p c.id ∈ since
  conference : c.isConference = true → d.isConference = true
  becomes : d.isConference = true → c.isConference = true ∨ ∃ leg, .link c.id leg ∈ since
  children : ∃ left joined : List CallId, d.children = c.children.filter (· ∉ left) ++ joined ∧
    (∀ leg ∈ left, .unlink leg ∈ since) ∧ ∀ leg ∈ joined, .link c.id leg ∈ since
  nodup : c.children.Nodup → d.children.Nodup

namespace Relinked
variable {first second : List Edit} {x y z : Call}

theorem refl (since : List Edit) (c : Call) : Relinked since c c where
  other := rfl
  parent := Or.inl rfl
  conference h := h
  becomes := Or.inl
  children := ⟨[], [], by simp, nofun, nofun⟩
  nodup h := h

theorem id_eq (h : Relinked since c d) : d.id = c.id := by
  rw [h.other]

theorem trans (h : Relinked first x y) (h' : Relinked second y z) : Relinked (first ++ second) x z where
  other := by
    rw [h'.other, h.other]
  parent := by
    rcases h'.parent with heq | ⟨hnone, hmem⟩ | ⟨p, hp, hmem⟩
    · rw [heq]
      rcases h.parent with heq | ⟨hnone, hmem⟩ | ⟨p, hp, hmem⟩
      · exact Or.inl heq
      · exact Or.inr (Or.inl ⟨hnone, List.mem_append_left _ hmem⟩)
      · exact Or.inr (Or.inr ⟨p, hp, List.mem_append_left _ hmem⟩)
    · exact Or.inr (Or.inl ⟨hnone, List.mem_append_right _ (h.id_eq ▸ hmem)⟩)
    · exact Or.inr (Or.inr ⟨p, hp, List.mem_append_right _ (h.id_eq ▸ hmem)⟩)
  conference hx := h'.conference (h.conference hx)
  becomes hz := by
    rcases h'.becomes hz with hy | ⟨leg, hmem⟩
    · rcases h.becomes hy with hx | ⟨leg, hmem⟩
      · exact Or.inl hx
      · exact Or.inr ⟨leg, List.mem_append_left _ hmem⟩
    · exact Or.inr ⟨leg, List.mem_append_right _ (h.id_eq ▸ hmem)⟩
  children := by
    obtain ⟨left, joined, hy, hleft, hjoined⟩ := h.children
    obtain ⟨left', joined', hz, hleft', hjoined'⟩ := h'.children
    -- What left in the second part is off the list also where it joined in the first.
    refine ⟨left ++ left', joined.filter (· ∉ left') ++ joined', ?_, fun leg hleg => ?_, fun leg hleg => ?_⟩
    · rw [hz, hy, List.filter_append, List.filter_filter, List.append_assoc]
      simp only [List.mem_append, not_or, Bool.decide_and, Bool.and_comm]
    · rcases List.mem_append.mp hleg with hleg | hleg
      · exact List.mem_append_left _ (hleft leg hleg)
      · exact List.mem_append_right _ (hleft' leg hleg)
    · rcases List.mem_append.mp hleg with hleg | hleg
      · exact List.mem_append_left _ (hjoined leg (List.mem_of_mem_filter hleg))
      · exact List.mem_append_right _ (h.id_eq ▸ hjoined' leg hleg)
  nodup hx := h'.nodup (h.nodup hx)

/-- A call that joins writes both ends of the link, which may be in one record. -/
theorem of_joined (parent child : CallId) (c : Call) : Relinked [.link parent child] c (c.joined parent child) where
  other := rfl
  parent := by
    by_cases hc : c.id = child
    · exact Or.inr (Or.inr ⟨parent, if_pos hc, hc ▸ List.mem_singleton_self _⟩)
    · exact Or.inl (if_neg hc)
  conference h := by
    change (if c.id = parent then true else c.isConference) = true
    rw [h, ite_self]
  becomes h := by
    by_cases hp : c.id = parent
    · exact Or.inr ⟨child, hp ▸ List.mem_singleton_self _⟩
    · exact Or.inl ((if_neg hp).symm.trans h)
  children := by
    by_cases hnew : c.id = parent ∧ child ∉ c.children
    · refine ⟨[], [child], (if_pos hnew).trans (by simp), nofun, fun leg hleg => ?_⟩
      rw [List.mem_singleton.mp hleg, hnew.1]
      exact List.mem_singleton_self _
    · exact ⟨[], [], (if_neg hnew).trans (by simp), nofun, nofun⟩
  nodup h := Call.nodup_children_joined h parent child

theorem of_departed (parent child : CallId) (c : Call) : Relinked [.unlink child] c (c.departed parent child) where
  other := rfl
  parent := by
    by_cases hc : c.id = child
    · exact Or.inr (Or.inl ⟨if_pos hc, hc ▸ List.mem_singleton_self _⟩)
    · exact Or.inl (if_neg hc)
  conference h := h
  becomes := Or.inl
  children := by
    by_cases hp : c.id = parent
    · refine ⟨[child], [], (if_pos hp).trans ?_, fun leg hleg => ?_, nofun⟩
      · rw [List.append_nil]
        refine List.filter_congr fun leg _ => ?_
        rw [Bool.eq_iff_iff]
        simp
      · rw [List.mem_singleton.mp hleg]
        exact List.mem_singleton_self _
    · exact ⟨[], [], (if_neg hp).trans (by simp), nofun, nofun⟩
  nodup h := Call.nodup_children_departed h parent child

end Relinked

/-- An edit that replaces another record, or none, leaves the call under the id there. -/
theorem UniqueIds.get?_apply (hu : t.UniqueIds) (he : e.replaces? ≠ some id) (hc : t.get? id = some c) :
    ∃ d, (t.apply e).get? id = some d ∧ Relinked [e] c d := by
  -- Records are put and taken out under other ids, so only the two edits of links reach the call.
  cases e with
  | insert call =>
    have hne : call.id ≠ id := fun heq => he (congrArg some heq)
    exact ⟨c, (hu.get?_insert_of_ne hne).trans hc, .refl _ c⟩
  | erase j =>
    have hne : id ≠ j := fun heq => he (congrArg some heq.symm)
    refine ⟨c, ?_, .refl _ c⟩
    rw [CallTable.apply, hu.get?_erase, Function.update_of_ne hne, hc]
  | link parent child =>
    by_cases hknown : parent ∈ t.ids ∧ child ∈ t.ids
    · obtain ⟨u, hlink, hcalls⟩ := hu.link?_known hknown.1 hknown.2
      refine ⟨c.joined parent child, ?_, .of_joined parent child c⟩
      rw [CallTable.apply, hlink, Option.getD_some, get?_of_calls_eq_map hcalls fun _ => rfl, hc, Option.map_some]
    · rw [apply_link_unknown hknown]
      exact ⟨c, hc, .refl _ c⟩
  | unlink child =>
    rw [CallTable.apply]
    by_cases hleg : ∃ x ∈ t.calls, x.id = child ∧ ∃ p, x.parent = some p
    · obtain ⟨x, hx, rfl, p, hp⟩ := hleg
      refine ⟨c.departed p x.id, ?_, .of_departed p x.id c⟩
      rw [get?_of_calls_eq_map (hu.calls_unlink_leg hx hp) fun _ => rfl, hc, Option.map_some]
    · have htop : ∀ x ∈ t.calls, x.id = child → x.parent = none := fun x hx hid =>
        Option.eq_none_iff_forall_ne_some.mpr fun p hp => hleg ⟨x, hx, hid, p, hp⟩
      rw [hu.insertionOrdered.unlink_other child htop]
      exact ⟨c, hc, .refl _ c⟩

theorem UniqueIds.get?_foldl_apply (hu : t.UniqueIds) (hsince : ∀ e ∈ since, e.replaces? ≠ some id)
    (hc : t.get? id = some c) : ∃ d, (since.foldl CallTable.apply t).get? id = some d ∧ Relinked since c d := by
  induction since generalizing t c with
  | nil => exact ⟨c, hc, .refl [] c⟩
  | cons e since ih =>
    rw [List.forall_mem_cons] at hsince
    obtain ⟨d, hd, hcd⟩ := hu.get?_apply hsince.1 hc
    obtain ⟨f, hf, hdf⟩ := ih (hu.apply e) hsince.2 hd
    exact ⟨f, hf, hcd.trans hdf⟩

/-- A call stands under its id until the id is inserted again or taken out. -/
theorem LastInserted.get? (h : LastInserted edits c since) :
    ∃ d, (ofEdits edits).get? c.id = some d ∧ Relinked since c d := by
  obtain ⟨⟨before, rfl⟩, huntouched⟩ := h
  have hu : ((ofEdits before).insert c).UniqueIds := (uniqueIds_ofEdits before).insert c
  rw [ofEdits, List.foldl_append, List.foldl_cons]
  exact hu.get?_foldl_apply huntouched (get?_insert_self _ c)

theorem LastInserted.concat (h : LastInserted edits c since) (he : e.replaces? ≠ some c.id) :
    LastInserted (edits ++ [e]) c (since ++ [e]) := by
  obtain ⟨⟨before, rfl⟩, huntouched⟩ := h
  refine ⟨⟨before, by simp⟩, fun x hx => ?_⟩
  rcases List.mem_append.mp hx with hx | hx
  · exact huntouched x hx
  · rwa [List.mem_singleton.mp hx]

/-- An id is known after an edit because a call was inserted under it, or because it was known before. -/
theorem UniqueIds.of_mem_ids_apply (hu : t.UniqueIds) (h : id ∈ (t.apply e).ids) :
    (∃ c, e = .insert c ∧ c.id = id) ∨ (id ∈ t.ids ∧ e.replaces? ≠ some id) := by
  cases e with
  | insert call =>
    by_cases hid : call.id = id
    · exact Or.inl ⟨call, rfl, hid⟩
    · refine Or.inr ⟨?_, fun heq => hid (Option.some.inj heq)⟩
      rw [CallTable.apply, ids_insert] at h
      split at h
      · exact h
      · exact (List.mem_append.mp h).resolve_right fun hnew => hid (List.mem_singleton.mp hnew).symm
  | erase j =>
    rw [CallTable.apply, ids_erase, List.Nodup.mem_erase_iff hu] at h
    exact Or.inr ⟨h.2, fun heq => h.1 (Option.some.inj heq).symm⟩
  | link parent child =>
    refine Or.inr ⟨?_, (Option.some_ne_none id).symm⟩
    rw [CallTable.apply] at h
    cases hlink : t.link? parent child with
    | none => rwa [hlink] at h
    | some u => rwa [hlink, Option.getD_some, ids_of_link? hlink] at h
  | unlink child =>
    rw [CallTable.apply, ids_unlink] at h
    exact Or.inr ⟨h, (Option.some_ne_none id).symm⟩

/-- Every known id was inserted and has not been taken out since. -/
theorem exists_lastInserted (h : id ∈ (ofEdits edits).ids) : ∃ c since, LastInserted edits c since ∧ c.id = id := by
  induction edits using List.reverseRecOn with
  | nil => cases h
  | append_singleton edits e ih =>
    rw [ofEdits_concat] at h
    rcases (uniqueIds_ofEdits edits).of_mem_ids_apply h with ⟨c, rfl, hid⟩ | ⟨hid, hkeeps⟩
    · exact ⟨c, [], ⟨⟨edits, rfl⟩, List.forall_mem_nil _⟩, hid⟩
    · obtain ⟨c, since, hlast, rfl⟩ := ih hid
      exact ⟨c, since ++ [e], hlast.concat hkeeps, rfl⟩

/-- Whatever was done to a table, it keeps the order of insertion, and a look-up finds the call that was
    inserted last under the id, but for its links, unless the id was taken out since. -/
theorem insertionOrdered_ofEdits (edits : List Edit) :
    (ofEdits edits).InsertionOrdered ∧
    (∀ c since, LastInserted edits c since → ∃ d, (ofEdits edits).get? c.id = some d ∧ Relinked since c d) ∧
    ∀ id d, (ofEdits edits).get? id = some d →
      ∃ c since, LastInserted edits c since ∧ c.id = id ∧ Relinked since c d := by
  refine ⟨(uniqueIds_ofEdits edits).insertionOrdered, fun c since h => h.get?, fun id d hd => ?_⟩
  have hid : id ∈ (ofEdits edits).ids := contains_iff.mp (Option.isSome_of_mem hd)
  obtain ⟨c, since, hlast, rfl⟩ := exists_lastInserted hid
  obtain ⟨f, hf, hcf⟩ := hlast.get?
  rw [hd, Option.some.injEq] at hf
  exact ⟨c, since, hlast, rfl, hf ▸ hcf⟩

/-- A call joins itself, a leg joins it and is taken out, and the call leaves itself. The leg comes back as a call
    of its own. -/
def leftAlone : List Edit :=
  [.insert freeCall, .insert firstLeg, .link ⟨6⟩ ⟨6⟩, .link ⟨6⟩ ⟨2⟩, .erase ⟨2⟩, .unlink ⟨6⟩, .insert firstLeg]

theorem insertionOrdered_ofEdits_leftAlone : (ofEdits leftAlone).InsertionOrdered ∧
    LastInserted leftAlone freeCall (leftAlone.drop 1) ∧
    ∃ d, (ofEdits leftAlone).get? freeCall.id = some d ∧ Relinked (leftAlone.drop 1) freeCall d ∧
      d = { freeCall with isConference := true, children := [⟨2⟩] } := by
  obtain ⟨hordered, hlast, -⟩ := insertionOrdered_ofEdits leftAlone
  have h : LastInserted leftAlone freeCall (leftAlone.drop 1) := ⟨⟨[], rfl⟩, by decide⟩
  obtain ⟨d, hd, hrelinked⟩ := hlast freeCall _ h
  have hfound : (ofEdits leftAlone).get? freeCall.id =
      some { freeCall with isConference := true, children := [⟨2⟩] } := by decide
  exact ⟨hordered, h, d, hd, hrelinked, Option.some.inj (hd.symm.trans hfound)⟩

end CallTable
end HandsFree

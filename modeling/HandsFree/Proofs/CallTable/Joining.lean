import HandsFree.Proofs.CallTable.Links

/-! When joining, leaving and ending keep the links settled. A call can join if it belongs to no other
    conference and its new one shows its legs; a call that becomes a conference by it must not list others
    from before. A call can leave unless it is the last leg. A call can end if it is a leg of no other call
    and no other call is a leg of it. In every other case the links are unsettled afterwards. -/

namespace HandsFree.CallTable

namespace Links
variable {l : Links} {c p q x : CallId} {shown : Prop}

theorem eq_of_parent (hc : l.parent c = none ∨ l.parent c = some p) (hq : l.parent c = some q) : q = p := by
  rcases hc with hc | hc
  · rw [hc] at hq
    cases hq
  · rw [hc] at hq
    exact (Option.some.inj hq).symm

/-! ### Joining -/

/-- The call becomes a leg of the conference, at both ends. -/
def join (l : Links) (p c : CallId) (shown : Prop) : Links := ((l.setParent c (some p)).addChild p c).expose p shown

namespace Agree

/-- A call that joins is given away by the conference that it came from. -/
theorem parent_of_join (h : l.Agree) (h' : (l.join p c shown).Agree) :
    l.parent c = none ∨ l.parent c = some p := by
  cases hq : l.parent c with
  | none => exact Or.inl rfl
  | some q =>
    have he : l.exposes q := h.parent c q hq
    have hpar := (h'.listed q (Or.inl he) c).mp (Or.inl ((h.listed q he c).mpr hq))
    rcases parent_setParent_some_iff.mp hpar with ⟨-, hpq⟩ | ⟨hne, -⟩
    · exact Or.inr (congrArg some hpq.symm)
    · exact absurd rfl hne

/-- Whatever a call lists that becomes a conference has to be its leg. -/
theorem eq_of_join (h : l.Agree) (h' : (l.join p c shown).Agree) (hs : shown) (hp : ¬l.exposes p)
    (hx : l.lists p x) : x = c := by
  have hpar := (h'.listed p (Or.inr ⟨rfl, hs⟩) x).mp (Or.inl hx)
  rcases parent_setParent_some_iff.mp hpar with ⟨hxc, -⟩ | ⟨-, hpar⟩
  · exact hxc
  · exact absurd (h.parent x p hpar) hp

theorem join (h : l.Agree) (hc : l.parent c = none ∨ l.parent c = some p) (hs : shown)
    (hp : l.exposes p ∨ ∀ x, l.lists p x → x = c) : (l.join p c shown).Agree where
  nonempty q hq := by
    rcases hq with hq | ⟨rfl, -⟩
    · obtain ⟨x, hx⟩ := h.nonempty q hq
      exact ⟨x, Or.inl hx⟩
    · exact ⟨c, Or.inr ⟨rfl, rfl⟩⟩
  listed q hq x := by
    refine Iff.trans ?_ parent_setParent_some_iff.symm
    change l.lists q x ∨ (q = p ∧ x = c) ↔ _
    by_cases hqp : q = p
    · subst hqp
      by_cases hx : x = c
      · exact iff_of_true (Or.inr ⟨rfl, hx⟩) (Or.inl ⟨hx, rfl⟩)
      · rw [or_iff_left fun heq => hx heq.2, or_iff_right fun heq => hx heq.1, and_iff_right hx]
        by_cases he : l.exposes q
        · exact h.listed q he x
        · -- A call that was no conference has no leg but the new one.
          exact iff_of_false (fun hl => hx (hp.resolve_left he x hl)) fun hpar => he (h.parent x q hpar)
    · have he : l.exposes q := hq.resolve_right fun heq => hqp heq.1
      rw [or_iff_left fun heq => hqp heq.1, or_iff_right fun heq => hqp heq.2.symm, h.listed q he x]
      refine (and_iff_right_of_imp ?_).symm
      rintro hpar rfl
      exact hqp (eq_of_parent hc hpar)
  parent x q hx := by
    rcases parent_setParent_some_iff.mp hx with ⟨-, hpq⟩ | ⟨-, hx⟩
    · exact Or.inr ⟨hpq.symm, hs⟩
    · exact Or.inl (h.parent x q hx)

/-- A call can join a conference that shows its legs if it belongs to no other one. A call that is no
    conference yet must not list others before. -/
theorem join_iff (h : l.Agree) (hp : l.exposes p → shown) :
    (l.join p c shown).Agree ↔
      (l.parent c = none ∨ l.parent c = some p) ∧ shown ∧ (l.exposes p ∨ ∀ x, l.lists p x → x = c) := by
  constructor
  · intro h'
    have hs : shown := by
      rcases h'.parent c p (parent_setParent_some_iff.mpr (Or.inl ⟨rfl, rfl⟩)) with he | ⟨-, hs⟩
      · exact hp he
      · exact hs
    refine ⟨h.parent_of_join h', hs, ?_⟩
    by_cases he : l.exposes p
    · exact Or.inl he
    · exact Or.inr fun x hx => h.eq_of_join h' hs he hx
  · rintro ⟨hc, hs, hlists⟩
    exact h.join hc hs hlists

/-! ### Leaving -/

/-- A conference can spare any leg but its last one. -/
theorem leave_iff (h : l.Agree) (hc : l.parent c = some p) :
    ((l.setParent c none).dropChild p c).Agree ↔ ∃ x, l.lists p x ∧ x ≠ c := by
  constructor
  · intro h'
    obtain ⟨x, hx, hne⟩ := h'.nonempty p (h.parent c p hc)
    exact ⟨x, hx, fun hxc => hne ⟨rfl, hxc⟩⟩
  · rintro ⟨x, hx, hxc⟩
    refine ⟨fun q hq => ?_, fun q hq y => ?_, fun y q hy => ?_⟩
    · by_cases hqp : q = p
      · exact ⟨x, hqp ▸ hx, fun heq => hxc heq.2⟩
      · obtain ⟨y, hy⟩ := h.nonempty q hq
        exact ⟨y, hy, fun heq => hqp heq.1⟩
    · refine Iff.trans ?_ parent_setParent_none_iff.symm
      change l.lists q y ∧ ¬(q = p ∧ y = c) ↔ _
      rw [h.listed q hq y, and_comm]
      refine and_congr_left fun hy => not_congr ⟨fun heq => heq.2, ?_⟩
      rintro rfl
      exact ⟨Option.some.inj (hy.symm.trans hc), rfl⟩
    · exact h.parent y q (parent_setParent_none_iff.mp hy).2

/-! ### Ending -/

/-- A call that ends is missed by its conference and by its legs, unless they are the call itself. -/
theorem erase_iff (h : l.Agree) :
    (l.erase p).Agree ↔ (l.parent p = none ∨ l.parent p = some p) ∧ ∀ x, l.parent x = some p → x = p := by
  constructor
  · intro h'
    constructor
    · cases hq : l.parent p with
      | none => exact Or.inl rfl
      | some q =>
        by_contra hne
        have hqp : q ≠ p := fun heq => hne (Or.inr (congrArg some heq))
        have he : l.exposes q := h.parent p q hq
        have hpar := (h'.listed q ⟨hqp, he⟩ p).mp ⟨hqp, (h.listed q he p).mpr hq⟩
        exact (parent_setParent_none_iff.mp hpar).1 rfl
    · intro x hx
      by_contra hne
      exact (h'.parent x p (parent_setParent_none_iff.mpr ⟨hne, hx⟩)).1 rfl
  · rintro ⟨hp, honly⟩
    refine ⟨fun q hq => ?_, fun q hq x => ?_, fun x q hx => ?_⟩
    · obtain ⟨x, hx⟩ := h.nonempty q hq.2
      exact ⟨x, hq.1, hx⟩
    · refine Iff.trans ?_ parent_setParent_none_iff.symm
      change q ≠ p ∧ l.lists q x ↔ _
      rw [and_iff_right hq.1, h.listed q hq.2 x]
      refine (and_iff_right_of_imp ?_).symm
      rintro hx rfl
      exact hq.1 (eq_of_parent hp hx)
    · obtain ⟨hxp, hx⟩ := parent_setParent_none_iff.mp hx
      exact ⟨fun hqp => hxp (honly x (hqp ▸ hx)), h.parent x q hx⟩

end Agree

end Links

section
variable {t : CallTable} {c p : Call} {id : CallId}

/-- Writing the leg's end of a link leaves all else of a record alone. -/
theorem exists_get?_setParent (hp : t.get? id = some p) (j : CallId) (q : Option CallId) :
    ∃ q', (t.setParent j q).get? id = some { p with parent := q' } := by
  rw [setParent, get?_modify (by exact fun _ => rfl), hp]
  split
  · exact ⟨q, rfl⟩
  · exact ⟨p.parent, rfl⟩

theorem links_join (hp : t.get? p.id = some p) (hc : t.get? c.id = some c) :
    ((t.setParent c.id (some p.id)).addChild p.id c.id).links =
      t.links.join p.id c.id (p.can .noChildren = false) := by
  obtain ⟨q, hp'⟩ := exists_get?_setParent hp c.id (some p.id)
  rw [links_addChild hp', links_setParent hc]
  rfl

/-- Whatever call joins whatever call, both are written, and the links stay settled exactly if the leg
    belongs to no other conference, the conference shows its legs and, where it was none before, lists
    no other call. -/
theorem isSettled_link?_iff (hu : t.UniqueIds) (hs : t.isSettled = true) (hp : p ∈ t.calls) (hc : c ∈ t.calls) :
    ∃ u, t.link? p.id c.id = some u ∧ (u.isSettled = true ↔
      (c.parent = none ∨ c.parent = some p.id) ∧ p.can .noChildren = false ∧
        (p.isConference = true ∨ ∀ id ∈ p.children, id = c.id)) := by
  have hgp := hu.get?_of_mem hp
  have hgc := hu.get?_of_mem hc
  have hu' : ((t.setParent c.id (some p.id)).addChild p.id c.id).UniqueIds := by
    rwa [UniqueIds, ids_addChild, ids_setParent]
  have hshown : t.links.exposes p.id → p.can .noChildren = false := by
    rw [exposes_links hgp]
    simp [Call.exposesChildren]
  refine ⟨_, by rw [link?, contains, contains, hgp, hgc]; rfl, ?_⟩
  rw [isSettled_iff_agree hu', links_join hgp hgc, ((isSettled_iff_agree hu).mp hs).join_iff hshown,
    parent_links hgc, exposes_links hgp]
  refine and_congr_right fun _ => and_congr_right fun hn => or_congr ?_ ?_
  · simp [Call.exposesChildren, hn]
  · exact forall_congr' fun id => imp_congr_left (lists_links hgp)

/-- A call without links joins itself, and a leg of a conference joins another one. -/
theorem isSettled_link?_iff_linkedCalls : linkedCalls.UniqueIds ∧ linkedCalls.isSettled = true ∧
    (∃ u, linkedCalls.link? ⟨6⟩ ⟨6⟩ = some u ∧ u.isSettled = true) ∧
    ∃ u, linkedCalls.link? ⟨4⟩ ⟨2⟩ = some u ∧ ¬u.isSettled = true := by
  have hu := uniqueIds_linkedCalls
  have hs := isSettled_linkedCalls
  have hfree : freeCall ∈ linkedCalls.calls := by decide
  obtain ⟨u, hlink, hself⟩ := isSettled_link?_iff hu hs hfree hfree
  obtain ⟨v, hlink', hmoved⟩ := isSettled_link?_iff (p := conferenceOfOne) (c := firstLeg) hu hs (by decide) (by decide)
  refine ⟨hu, hs, ⟨u, hlink, hself.mpr ⟨Or.inl rfl, rfl, Or.inr ?_⟩⟩, v, hlink', fun hv => ?_⟩
  · intro id hid
    cases hid
  · obtain ⟨hparent | hparent, -⟩ := hmoved.mp hv
    · cases hparent
    · exact absurd hparent (by decide)

/-! ### Leaving and ending -/

theorem unlink_of_topLevel (hc : ∀ c ∈ t.get? id, c.parent = none) : t.unlink id = t := by
  have hnone : (t.get? id).bind (·.parent) = none := by
    rw [Option.bind_eq_none_iff]
    exact hc
  simp only [unlink, hnone]

theorem links_unlink (hc : t.get? c.id = some c) (hp : t.get? p.id = some p) (hcp : c.parent = some p.id) :
    (t.unlink c.id).links = (t.links.setParent c.id none).dropChild p.id c.id := by
  obtain ⟨q, hp'⟩ := exists_get?_setParent hp c.id none
  have hparent : (t.get? c.id).bind (·.parent) = some p.id := by rw [hc, Option.bind_some, hcp]
  simp only [unlink, hparent]
  rw [links_dropChild hp', links_setParent hc]

/-- A leg can leave as long as its conference keeps another one. -/
theorem isSettled_unlink_leg_iff (hu : t.UniqueIds) (hs : t.isSettled = true) (hc : c ∈ t.calls) (hp : p ∈ t.calls)
    (hcp : c.parent = some p.id) : (t.unlink c.id).isSettled = true ↔ ∃ leg ∈ p.children, leg ≠ c.id := by
  have hu' : (t.unlink c.id).UniqueIds := by rwa [UniqueIds, ids_unlink]
  have hgc := hu.get?_of_mem hc
  have hgp := hu.get?_of_mem hp
  rw [isSettled_iff_agree hu', links_unlink hgc hgp hcp,
    ((isSettled_iff_agree hu).mp hs).leave_iff ((parent_links hgc).trans hcp)]
  exact exists_congr fun leg => and_congr_left fun _ => lists_links hgp

theorem isSettled_unlink_iff (hu : t.UniqueIds) (hs : t.isSettled = true) (id : CallId) :
    (t.unlink id).isSettled = true ↔
      id ∉ t.ids ∨ (∃ c ∈ t.calls, c.id = id ∧ c.parent = none) ∨
        ∃ c ∈ t.calls, c.id = id ∧ ∃ p ∈ t.calls, c.parent = some p.id ∧ ∃ leg ∈ p.children, leg ≠ id := by
  by_cases hid : id ∈ t.ids
  · obtain ⟨c, hc, rfl⟩ := List.mem_map.mp hid
    cases hpar : c.parent with
    | none =>
      rw [unlink_of_topLevel (by simpa [hu.get?_of_mem hc] using hpar)]
      exact iff_of_true hs (Or.inr (Or.inl ⟨c, hc, rfl, hpar⟩))
    | some q =>
      obtain ⟨p, hp, rfl, -⟩ := ((isSettled_iff hu).mp hs).parent c hc q hpar
      rw [isSettled_unlink_leg_iff hu hs hc hp hpar]
      constructor
      · intro hleg
        exact Or.inr (Or.inr ⟨c, hc, rfl, p, hp, hpar, hleg⟩)
      · rintro (hnot | ⟨d, hd, hdc, hdpar⟩ | ⟨d, hd, hdc, p', hp', hdpar, hleg⟩)
        · exact absurd hid hnot
        · rw [hu.eq_of_id hd hc hdc, hpar] at hdpar
          cases hdpar
        · rw [hu.eq_of_id hd hc hdc, hpar, Option.some.injEq] at hdpar
          rwa [hu.eq_of_id hp hp' hdpar]
  · rw [unlink_of_topLevel fun c hc => absurd (contains_iff.mp (Option.isSome_of_mem hc)) hid]
    exact iff_of_true hs (Or.inl hid)

theorem isSettled_erase_iff (hu : t.UniqueIds) (hs : t.isSettled = true) (hc : c ∈ t.calls) :
    (t.erase c.id).isSettled = true ↔
      (c.parent = none ∨ c.parent = some c.id) ∧ ∀ d ∈ t.calls, d.parent = some c.id → d = c := by
  rw [isSettled_iff_agree (hu.erase c.id), links_erase hu, ((isSettled_iff_agree hu).mp hs).erase_iff,
    parent_links (hu.get?_of_mem hc)]
  refine and_congr_right fun _ => ⟨fun h d hd hdc => ?_, fun h id hid => ?_⟩
  · exact hu.eq_of_id hd hc (h d.id ((parent_links (hu.get?_of_mem hd)).trans hdc))
  · obtain ⟨d, hd, rfl, hdc⟩ := hu.parent_links_eq_some_iff.mp hid
    rw [h d hd hdc]

/-- A call that leaves unsettles the links exactly if it is the last leg of its conference, and a call that
    ends does exactly if it is a leg of another call or another call is a leg of it. -/
theorem isSettled_unlink_erase_iff (hu : t.UniqueIds) (hs : t.isSettled = true) :
    (∀ id, (t.unlink id).isSettled = true ↔
      id ∉ t.ids ∨ (∃ c ∈ t.calls, c.id = id ∧ c.parent = none) ∨
        ∃ c ∈ t.calls, c.id = id ∧ ∃ p ∈ t.calls, c.parent = some p.id ∧ ∃ leg ∈ p.children, leg ≠ id) ∧
    ∀ x ∈ t.calls, ((t.erase x.id).isSettled = true ↔
      (x.parent = none ∨ x.parent = some x.id) ∧ ∀ c ∈ t.calls, c.parent = some x.id → c = x) := by
  constructor
  · intro id
    exact isSettled_unlink_iff hu hs id
  · intro x hx
    exact isSettled_erase_iff hu hs hx

/-- A leg of two leaves, and the only leg of another conference. The call that is its own leg ends, and a leg
    of two. -/
theorem isSettled_unlink_erase_iff_linkedCalls : linkedCalls.UniqueIds ∧ linkedCalls.isSettled = true ∧
    (linkedCalls.unlink ⟨2⟩).isSettled = true ∧ ¬(linkedCalls.unlink ⟨5⟩).isSettled = true ∧
    (linkedCalls.erase ⟨7⟩).isSettled = true ∧ ¬(linkedCalls.erase ⟨2⟩).isSettled = true := by
  have hu := uniqueIds_linkedCalls
  have hs := isSettled_linkedCalls
  obtain ⟨hunlink, herase⟩ := isSettled_unlink_erase_iff hu hs
  refine ⟨hu, hs, (hunlink ⟨2⟩).mpr (by decide), fun h => ?_, (herase ownLeg (by decide)).mpr (by decide), fun h => ?_⟩
  · exact absurd ((hunlink ⟨5⟩).mp h) (by decide)
  · obtain ⟨hparent | hparent, -⟩ := (herase firstLeg (by decide)).mp h
    · cases hparent
    · exact absurd hparent (by decide)

end

end HandsFree.CallTable

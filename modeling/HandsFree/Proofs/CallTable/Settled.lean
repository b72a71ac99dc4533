import HandsFree.CallTable.Links
import HandsFree.Proofs.CallTable.Lookup

/-! What settled links say about the records. A conference that shows its legs lists at least one, and
    lists exactly the calls that name it as their parent; every parent that a call names is such a
    conference. -/

namespace HandsFree.CallTable

/-- The two ends of every link agree. -/
structure Settled (t : CallTable) : Prop where
  nonempty : ∀ p ∈ t.calls, p.exposesChildren = true → p.children ≠ []
  listed : ∀ p ∈ t.calls, p.exposesChildren = true →
    ∀ id, id ∈ p.children ↔ ∃ c ∈ t.calls, c.id = id ∧ c.parent = some p.id
  parent : ∀ c ∈ t.calls, ∀ id, c.parent = some id → ∃ p ∈ t.calls, p.id = id ∧ p.exposesChildren = true

section
variable {t : CallTable}

theorem conferenceSettled_iff (hu : t.UniqueIds) {p : Call} (hp : p ∈ t.calls) (he : p.exposesChildren = true) :
    t.conferenceSettled p.id = true ↔
      p.children ≠ [] ∧ ∀ id, id ∈ p.children ↔ ∃ c ∈ t.calls, c.id = id ∧ c.parent = some p.id := by
  have hback : ∀ id, (t.get? id).any (·.parent == some p.id) = true ↔
      ∃ c ∈ t.calls, c.id = id ∧ c.parent = some p.id := fun id => by
    rw [hu.any_get?_iff]
    simp only [beq_iff_eq]
  have hclaim : (t.calls.all fun c => c.parent != some p.id || p.children.contains c.id) = true ↔
      ∀ c ∈ t.calls, c.parent = some p.id → c.id ∈ p.children := by
    simp only [List.all_eq_true, Bool.or_eq_true, bne_iff_ne, ne_eq, List.contains_iff_mem]
    exact forall₂_congr fun c _ => Decidable.imp_iff_not_or.symm
  have hne : (!p.children.isEmpty) = true ↔ p.children ≠ [] := by simp
  simp only [conferenceSettled, hu.get?_of_mem hp, he, Bool.not_true, Bool.false_or, Bool.and_eq_true, hne,
    hclaim, List.all_eq_true, hback, and_assoc]
  refine and_congr_right fun _ => ⟨?_, ?_⟩
  · rintro ⟨hlist, hall⟩ id
    refine ⟨hlist id, ?_⟩
    rintro ⟨c, hc, rfl, hpar⟩
    exact hall c hc hpar
  · intro h
    exact ⟨fun id hid => (h id).mp hid, fun c hc hpar => (h c.id).mpr ⟨c, hc, rfl, hpar⟩⟩

theorem mem_childrenOf (hu : t.UniqueIds) {p : Call} (hp : p ∈ t.calls) {c : Call} :
    c ∈ t.childrenOf p.id ↔ c ∈ t.calls ∧ c.id ∈ p.children := by
  simp only [childrenOf, hu.get?_of_mem hp, List.mem_filterMap, hu.get?_eq_some_iff]
  constructor
  · rintro ⟨id, hid, hc, rfl⟩
    exact ⟨hc, hid⟩
  · rintro ⟨hc, hid⟩
    exact ⟨c.id, hid, hc, rfl⟩

theorem parentExposes_iff (hu : t.UniqueIds) (c : Call) :
    t.parentExposes c = true ↔
      ∀ id, c.parent = some id → ∃ p ∈ t.calls, p.id = id ∧ p.exposesChildren = true := by
  unfold parentExposes
  cases c.parent with
  | none => simp
  | some id => simp [hu.any_get?_iff]

theorem isSettled_iff (hu : t.UniqueIds) : t.isSettled = true ↔ t.Settled := by
  have hconf : (t.calls.all fun c => !c.exposesChildren || t.conferenceSettled c.id) = true ↔
      ∀ p ∈ t.calls, p.exposesChildren = true → t.conferenceSettled p.id = true := by
    simp only [List.all_eq_true, Bool.or_eq_true, Bool.not_eq_true', ← Bool.not_eq_true]
    exact forall₂_congr fun p _ => Decidable.imp_iff_not_or.symm
  rw [isSettled, Bool.and_eq_true, hconf, List.all_eq_true]
  constructor
  · rintro ⟨hc, hp⟩
    exact
      { nonempty := fun p hm he => ((conferenceSettled_iff hu hm he).mp (hc p hm he)).1
        listed := fun p hm he => ((conferenceSettled_iff hu hm he).mp (hc p hm he)).2
        parent := fun c hm => (parentExposes_iff hu c).mp (hp c hm) }
  · intro h
    exact ⟨fun p hm he => (conferenceSettled_iff hu hm he).mpr ⟨h.nonempty p hm he, h.listed p hm he⟩,
      fun c hm => (parentExposes_iff hu c).mpr (h.parent c hm)⟩

end

namespace Settled
variable {t : CallTable}

/-- A call with a parent is found under that parent, and listed there. -/
theorem exists_parent (h : t.Settled) {c : Call} (hc : c ∈ t.calls) {id : CallId} (hid : c.parent = some id) :
    ∃ p ∈ t.calls, p.id = id ∧ p.exposesChildren = true ∧ c.id ∈ p.children := by
  obtain ⟨p, hp, hpid, he⟩ := h.parent c hc id hid
  exact ⟨p, hp, hpid, he, (h.listed p hp he c.id).mpr ⟨c, hc, rfl, by rw [hid, hpid]⟩⟩

theorem parent_of_mem_children (h : t.Settled) (hu : t.UniqueIds) {p c : Call} (hp : p ∈ t.calls)
    (he : p.exposesChildren = true) (hc : c ∈ t.calls) (hid : c.id ∈ p.children) : c.parent = some p.id := by
  obtain ⟨d, hd, hdc, hpar⟩ := (h.listed p hp he c.id).mp hid
  rwa [hu.eq_of_id hd hc hdc] at hpar

/-- A conference that shows its legs has one. -/
theorem exists_leg (h : t.Settled) {p : Call} (hp : p ∈ t.calls) (he : p.exposesChildren = true) :
    ∃ c ∈ t.calls, c.parent = some p.id := by
  obtain ⟨id, hid⟩ := List.exists_mem_of_ne_nil _ (h.nonempty p hp he)
  obtain ⟨c, hc, -, hpar⟩ := (h.listed p hp he id).mp hid
  exact ⟨c, hc, hpar⟩

/-- No two conferences list the same call. -/
theorem eq_of_mem_children (h : t.Settled) (hu : t.UniqueIds) {p q : Call} (hp : p ∈ t.calls) (hq : q ∈ t.calls)
    (hpe : p.exposesChildren = true) (hqe : q.exposesChildren = true) {id : CallId} (hidp : id ∈ p.children)
    (hidq : id ∈ q.children) : p = q := by
  obtain ⟨c, hc, rfl, hpar⟩ := (h.listed p hp hpe id).mp hidp
  have hpar' := h.parent_of_mem_children hu hq hqe hc hidq
  rw [hpar, Option.some.injEq] at hpar'
  exact hu.eq_of_id hp hq hpar'

/-- Every call that a conference lists is found, in the order of the list. -/
theorem map_id_childrenOf (h : t.Settled) (hu : t.UniqueIds) {p : Call} (hp : p ∈ t.calls)
    (he : p.exposesChildren = true) : (t.childrenOf p.id).map Call.id = p.children := by
  have hfound : ∀ id ∈ p.children, (t.get? id).map Call.id = some id := by
    intro id hid
    obtain ⟨c, hc, rfl, -⟩ := (h.listed p hp he id).mp hid
    rw [hu.get?_of_mem hc, Option.map_some]
  simp only [childrenOf, hu.get?_of_mem hp, List.map_filterMap]
  rw [List.filterMap_congr hfound, List.filterMap_some]

end Settled

/-- The check of the links is exact, and links that pass it share the legs out: a leg is listed by its own
    parent and by no other conference, two conferences have no leg in common, and every call that a
    conference lists is found. -/
theorem isSettled_exact {t : CallTable} (hu : t.UniqueIds) :
    (t.isSettled = true ↔ t.Settled) ∧
    (t.isSettled = true →
      (∀ c ∈ t.calls, ∀ id, c.parent = some id →
        ∃ p ∈ t.calls, p.id = id ∧ p.exposesChildren = true ∧ c.id ∈ p.children ∧
          ∀ q ∈ t.calls, q.exposesChildren = true → c.id ∈ q.children → q = p) ∧
      (∀ p ∈ t.calls, ∀ q ∈ t.calls, p.exposesChildren = true → q.exposesChildren = true → p ≠ q →
        p.children.Disjoint q.children) ∧
      ∀ p ∈ t.calls, p.exposesChildren = true → (t.childrenOf p.id).map Call.id = p.children) := by
  refine ⟨isSettled_iff hu, fun hs => ?_⟩
  rw [isSettled_iff hu] at hs
  refine ⟨?_, ?_, fun p hp he => hs.map_id_childrenOf hu hp he⟩
  · intro c hc id hid
    obtain ⟨p, hp, hpid, he, hlisted⟩ := hs.exists_parent hc hid
    exact ⟨p, hp, hpid, he, hlisted, fun q hq hqe hcq => hs.eq_of_mem_children hu hq hp hqe he hcq hlisted⟩
  · intro p hp q hq hpe hqe hne id hidp hidq
    exact hne (hs.eq_of_mem_children hu hp hq hpe hqe hidp hidq)

def conferenceOfTwo : Call := { id := ⟨1⟩, state := .active, isConference := true, children := [⟨2⟩, ⟨3⟩] }

def firstLeg : Call := { id := ⟨2⟩, state := .active, parent := some ⟨1⟩ }

def conferenceOfOne : Call := { id := ⟨4⟩, state := .onHold, isConference := true, children := [⟨5⟩] }

def freeCall : Call := { id := ⟨6⟩, state := .ringing }

/-- A conference whose only leg is itself. -/
def ownLeg : Call :=
  { id := ⟨7⟩, state := .active, isConference := true, parent := some ⟨7⟩, children := [⟨7⟩] }

/-- Three conferences with their legs, and a call without links. -/
def linkedCalls : CallTable :=
  ⟨[conferenceOfTwo, firstLeg, conferenceOfOne, { id := ⟨3⟩, state := .active, parent := some ⟨1⟩ },
    { id := ⟨5⟩, state := .onHold, parent := some ⟨4⟩ }, freeCall, ownLeg]⟩

theorem uniqueIds_linkedCalls : linkedCalls.UniqueIds := by decide

theorem isSettled_linkedCalls : linkedCalls.isSettled = true := by decide

theorem isSettled_exact_linkedCalls : linkedCalls.UniqueIds ∧ linkedCalls.isSettled = true ∧ linkedCalls.Settled ∧
    (∀ p ∈ linkedCalls.calls, ∀ q ∈ linkedCalls.calls, p.exposesChildren = true → q.exposesChildren = true →
      p ≠ q → p.children.Disjoint q.children) ∧
    (linkedCalls.childrenOf ⟨1⟩).map Call.id = [⟨2⟩, ⟨3⟩] := by
  have hu := uniqueIds_linkedCalls
  have hs := isSettled_linkedCalls
  obtain ⟨hiff, hlegs⟩ := isSettled_exact hu
  obtain ⟨-, hdisjoint, hfound⟩ := hlegs hs
  exact ⟨hu, hs, hiff.mp hs, hdisjoint, hfound conferenceOfTwo List.mem_cons_self rfl⟩

end HandsFree.CallTable

import HandsFree.CallTable.Links
import HandsFree.Proofs.Listing

/-! What a listing tells of the address of a conference that hides its participants. It tells nothing, unless the
    conference is itself a leg of a tracked conference: a leg is listed with its number, whatever it is. So two
    tables that differ in such addresses only have the same listing if and only if they agree on the numbers of
    these legs. -/

namespace HandsFree

namespace Call
variable {c : Call}

/-- The call without its addresses, if it is a conference that hides its participants. -/
def redacted (c : Call) : Call := if c.hidesChildren then { c with handle := none, gatewayAddress := none } else c

/-- What does not read the addresses of a call is the same without them. -/
theorem apply_redacted {α : Type} {f : Call → α}
    (h : ∀ (c : Call) (handle gateway : Option String), f { c with handle := handle, gatewayAddress := gateway } = f c)
    (c : Call) : f c.redacted = f c := by
  unfold redacted
  split
  · exact h c none none
  · rfl

theorem id_redacted : ∀ c : Call, c.redacted.id = c.id := apply_redacted fun _ _ _ => rfl

theorem state_redacted : ∀ c : Call, c.redacted.state = c.state := apply_redacted fun _ _ _ => rfl

theorem direction_redacted : ∀ c : Call, c.redacted.direction = c.direction := apply_redacted fun _ _ _ => rfl

theorem parent_redacted : ∀ c : Call, c.redacted.parent = c.parent := apply_redacted fun _ _ _ => rfl

theorem hidesChildren_redacted : ∀ c : Call, c.redacted.hidesChildren = c.hidesChildren :=
  apply_redacted fun _ _ _ => rfl

theorem redacted_of_not_hides (h : ¬c.hidesChildren = true) : c.redacted = c := if_neg h

end Call

namespace CallTable
variable {t : CallTable} {c : Call}

/-- The table without the addresses of conferences that hide their participants. -/
def redacted (t : CallTable) : CallTable := ⟨t.calls.map Call.redacted⟩

/-- The call that the record names as its conference is tracked. -/
def IsLeg (t : CallTable) (c : Call) : Prop := ∃ p ∈ t.calls, c.parent = some p.id

instance (t : CallTable) (c : Call) : Decidable (t.IsLeg c) :=
  inferInstanceAs (Decidable (∃ p ∈ t.calls, _))

theorem isLeg_redacted : t.IsLeg c.redacted ↔ t.IsLeg c := by rw [IsLeg, IsLeg, Call.parent_redacted]

theorem isLeg_iff : t.IsLeg c ↔ ∃ p, c.parent.bind t.get? = some p := by
  rw [IsLeg, ← Option.isSome_iff_exists]
  cases c.parent with
  | none => simp
  | some id =>
    have hcontains : (t.get? id).isSome = true ↔ id ∈ t.ids := contains_iff
    rw [Option.bind_some, hcontains, ids, List.mem_map]
    simp only [Option.some.injEq, eq_comm]

/-! ### Look-ups -/

theorem ids_redacted (t : CallTable) : t.redacted.ids = t.ids := by
  rw [ids, redacted, List.map_map, funext (f := Call.id ∘ Call.redacted) Call.id_redacted]
  rfl

theorem get?_redacted (t : CallTable) (id : CallId) : t.redacted.get? id = (t.get? id).map Call.redacted := by
  rw [get?, redacted, List.find?_map]
  congr 2
  funext c
  rw [Function.comp_apply, Call.id_redacted]

theorem firstTopLevel?_redacted (t : CallTable) (q : CallState → Bool) :
    (t.redacted.firstTopLevel? fun c => q c.state) = t.firstTopLevel? fun c => q c.state := by
  have hcomp : ((fun c : Call => c.isTopLevel && q c.state) ∘ Call.redacted) = fun c => c.isTopLevel && q c.state := by
    funext c
    rw [Function.comp_apply, Call.isTopLevel, Call.parent_redacted, Call.state_redacted]
    rfl
  have hid : Call.id ∘ Call.redacted = Call.id := funext Call.id_redacted
  rw [firstTopLevel?, redacted, List.find?_map, Option.map_map, hcomp, hid]
  rfl

theorem foreground?_redacted (t : CallTable) : t.redacted.foreground? = t.foreground? := by
  have hstates : ∀ x, t.redacted.firstInStates? [x] = t.firstInStates? [x] := fun x =>
    firstTopLevel?_redacted t fun y => [x].contains y
  have houtgoing : t.redacted.outgoing? = t.outgoing? := firstTopLevel?_redacted t CallState.isOutgoing
  simp only [foreground?, active?, held?, ringing?, hstates, houtgoing]

end CallTable

namespace Listing
open CallTable
variable {t u : CallTable} {c d p : Call}

/-! ### The line of a call -/

theorem hasLine_redacted : ∀ c : Call, hasLine c.redacted = hasLine c := Call.apply_redacted fun _ _ _ => rfl

theorem hasLine_of_hides (h : c.hidesChildren = true) : hasLine c = isReportable c.state := by
  rw [Call.hidesChildren, Bool.and_eq_true] at h
  rw [hasLine, Call.exposesChildren, h.1, h.2]
  rfl

theorem ownState_redacted (t : CallTable) (c : Call) : ownState t c.redacted = ownState t c := by
  rw [ownState, Call.state_redacted, Call.id_redacted, ownState]

theorem number_legLine (p c : Call) (x : LineState) : (legLine p c x).number = c.displayNumber := by
  unfold legLine
  split
  · split <;> rfl
  · rfl

/-- The number is all that the addresses of a leg decide on its line. -/
theorem legLine_eq (p c : Call) (x : LineState) :
    legLine p c x = { legLine p c.redacted x with number := c.displayNumber } := by
  unfold legLine
  rw [Call.direction_redacted, Call.id_redacted]
  split
  · split <;> rfl
  · rfl

/-- The addresses of a conference have no say in the lines of its legs. -/
theorem legLine_redacted (p c : Call) (x : LineState) : legLine p.redacted c x = legLine p c x :=
  Call.apply_redacted (f := fun p => legLine p c x) (fun _ _ _ => rfl) p

/-- No address in the table has a say in the line of a call, but for those of the call. -/
theorem lineOf_redacted (t : CallTable) : lineOf t.redacted = lineOf t := by
  funext c
  have hparent : c.parent.bind t.redacted.get? = (c.parent.bind t.get?).map Call.redacted := by
    cases c.parent with
    | none => rfl
    | some id => exact get?_redacted t id
  have hown : ownState t.redacted c = ownState t c := by rw [ownState, foreground?_redacted, ownState]
  rw [lineOf, hparent, hown, lineOf]
  cases c.parent.bind t.get? with
  | none => rfl
  | some p => exact legLine_redacted p c _

theorem lineOf_of_leg (h : c.parent.bind t.get? = some p) : lineOf t c = legLine p c (ownState t c) := by
  rw [lineOf, h]

theorem lineOf_of_hides (hides : c.hidesChildren = true) (h : ¬t.IsLeg c) :
    lineOf t c = ⟨c.direction, ownState t c, true, none⟩ := by
  rw [isLeg_iff, not_exists, ← Option.eq_none_iff_forall_ne_some] at h
  rw [lineOf, h]
  exact if_pos hides

theorem number_lineOf_of_isLeg (h : t.IsLeg c) : (lineOf t c).number = c.displayNumber := by
  obtain ⟨p, hp⟩ := isLeg_iff.mp h
  rw [lineOf_of_leg hp, number_legLine]

theorem lineOf_eq_of_isLeg (h : t.IsLeg c) :
    lineOf t c = { lineOf t c.redacted with number := c.displayNumber } := by
  obtain ⟨p, hp⟩ := isLeg_iff.mp h
  have hp' : c.redacted.parent.bind t.get? = some p := by rw [Call.parent_redacted, hp]
  rw [lineOf_of_leg hp, lineOf_of_leg hp', ownState_redacted, ← legLine_eq]

theorem lineOf_eq_of_not_isLeg (h : ¬t.IsLeg c) : lineOf t c = lineOf t c.redacted := by
  by_cases hides : c.hidesChildren = true
  · have hides' : c.redacted.hidesChildren = true := by rw [Call.hidesChildren_redacted, hides]
    rw [lineOf_of_hides hides h, lineOf_of_hides hides' fun h' => h (isLeg_redacted.mp h'), ownState_redacted,
      Call.direction_redacted]
  · rw [Call.redacted_of_not_hides hides]

/-- Calls that differ only in such addresses have the same line, unless the line shows them. -/
theorem lineOf_eq_iff (h : c.redacted = d.redacted) :
    lineOf t c = lineOf t d ↔ (c.hidesChildren = true → t.IsLeg c → c.displayNumber = d.displayNumber) := by
  have hleg_iff : t.IsLeg c ↔ t.IsLeg d := by rw [← isLeg_redacted, h, isLeg_redacted]
  by_cases hleg : t.IsLeg c
  · have hleg' : t.IsLeg d := hleg_iff.mp hleg
    constructor
    · intro hline _ _
      rw [← number_lineOf_of_isLeg hleg, hline, number_lineOf_of_isLeg hleg']
    · intro hnumber
      by_cases hides : c.hidesChildren = true
      · rw [lineOf_eq_of_isLeg hleg, lineOf_eq_of_isLeg hleg', h, hnumber hides hleg]
      · have hides' : ¬d.hidesChildren = true := by
          rwa [← Call.hidesChildren_redacted, ← h, Call.hidesChildren_redacted]
        rw [Call.redacted_of_not_hides hides, Call.redacted_of_not_hides hides'] at h
        rw [h]
  · refine iff_of_true ?_ fun _ h => absurd h hleg
    rw [lineOf_eq_of_not_isLeg hleg, h, ← lineOf_eq_of_not_isLeg fun h' => hleg (hleg_iff.mpr h')]

/-! ### The whole listing -/

/-- An entry but for its place in the listing. -/
def line (e : ListEntry) : Line := ⟨e.direction, e.state, e.multiparty, e.number⟩

theorem map_line_entries (t : CallTable) : (entries t).map line = lines t :=
  (map_entries (g := id) (fun _ _ => rfl) t).trans (List.map_id _)

/-- A listing says as much as its lines. -/
theorem ofCalls_eq_iff : ofCalls t = ofCalls u ↔ lines t = lines u := by
  constructor
  · intro h
    rw [← map_line_entries, ← map_line_entries, List.append_cancel_right h]
  · intro h
    rw [ofCalls, entries, h]
    rfl

theorem map_redacted_listed (t : CallTable) : (listed t).map Call.redacted = listed t.redacted := by
  have hcomp : hasLine ∘ Call.redacted = hasLine := funext hasLine_redacted
  rw [listed, listed, CallTable.redacted, List.filter_map, hcomp]

/-- The listed calls of two tables that differ only in such addresses, one by one. -/
theorem redacted_getElem (h : t.redacted = u.redacted) :
    (listed t).length = (listed u).length ∧
    ∀ (i : Nat) (hi : i < (listed t).length) (hj : i < (listed u).length),
      (listed t)[i].redacted = (listed u)[i].redacted := by
  have hmap : (listed t).map Call.redacted = (listed u).map Call.redacted := by
    rw [map_redacted_listed, h, map_redacted_listed]
  refine ⟨by simpa using congrArg List.length hmap, fun i hi hj => ?_⟩
  have hget := List.getElem_of_eq hmap (i := i) (by rwa [List.length_map])
  rwa [List.getElem_map, List.getElem_map] at hget

/-- The listed calls whose line shows an address that the conference should keep to itself. -/
def Discloses (t : CallTable) (c : Call) : Prop :=
  c.hidesChildren = true ∧ isReportable c.state = true ∧ t.IsLeg c

instance (t : CallTable) (c : Call) : Decidable (Discloses t c) :=
  inferInstanceAs (Decidable (_ ∧ _ ∧ _))

theorem lines_eq_iff (hu : t.UniqueIds) (h : t.redacted = u.redacted) :
    lines t = lines u ↔
      ∀ c ∈ t.calls, ∀ d ∈ u.calls, c.id = d.id → Discloses t c → c.displayNumber = d.displayNumber := by
  have hu' : u.UniqueIds := by
    rw [CallTable.UniqueIds, ← ids_redacted, ← h, ids_redacted]
    exact hu
  have hline : lineOf u = lineOf t := by rw [← lineOf_redacted, ← h, lineOf_redacted]
  obtain ⟨hlen, hget⟩ := redacted_getElem h
  rw [lines_eq_map, lines_eq_map, hline]
  constructor
  · rintro hlines c hc d hd hid ⟨hides, hstate, hleg⟩
    have hlisted : c ∈ listed t := List.mem_filter.mpr ⟨hc, (hasLine_of_hides hides).trans hstate⟩
    obtain ⟨i, hi, rfl⟩ := List.getElem_of_mem hlisted
    have hj : i < (listed u).length := hlen ▸ hi
    have hd' : (listed u)[i] = d := by
      refine hu'.eq_of_id (List.mem_of_mem_filter (List.getElem_mem hj)) hd ?_
      rw [← hid, ← Call.id_redacted, ← hget i hi hj, Call.id_redacted]
    have hboth := List.getElem_of_eq hlines (i := i) (by rwa [List.length_map])
    rw [List.getElem_map, List.getElem_map, lineOf_eq_iff (hget i hi hj)] at hboth
    rw [← hd']
    exact hboth hides hleg
  · intro hnumber
    refine List.ext_getElem (by rw [List.length_map, List.length_map, hlen]) fun i hi hj => ?_
    rw [List.length_map] at hi hj
    rw [List.getElem_map, List.getElem_map, lineOf_eq_iff (hget i hi hj)]
    intro hides hleg
    obtain ⟨hc, hstate⟩ := List.mem_filter.mp (List.getElem_mem hi)
    rw [hasLine_of_hides hides] at hstate
    have hid : (listed t)[i].id = (listed u)[i].id := by
      rw [← Call.id_redacted, hget i hi hj, Call.id_redacted]
    exact hnumber _ hc _ (List.mem_of_mem_filter (List.getElem_mem hj)) hid ⟨hides, hstate, hleg⟩

/-- Two tables with unique ids differ only in addresses of conferences that hide their participants. Their listings
    are the same if and only if they agree on the number of each of these conferences that is listed as a leg of
    another. The entry of such a leg has its number, and the entry of any other conference that hides its
    participants has no number and is marked as a conference. -/
theorem hidden_address_exact (hu : t.UniqueIds) (h : t.redacted = u.redacted) :
    (ofCalls t = ofCalls u ↔
      ∀ c ∈ t.calls, ∀ d ∈ u.calls, c.id = d.id → Discloses t c → c.displayNumber = d.displayNumber) ∧
    ∀ x ∈ byCall t, x.1.hidesChildren = true →
      (t.IsLeg x.1 → x.2.number = x.1.displayNumber) ∧
      (¬t.IsLeg x.1 → x.2.number = none ∧ x.2.numberType = -1 ∧ x.2.multiparty = true) := by
  refine ⟨ofCalls_eq_iff.trans (lines_eq_iff hu h), ?_⟩
  rintro ⟨c, e⟩ hx hides
  obtain ⟨-, i, rfl⟩ := of_mem_byCall hx
  refine ⟨number_lineOf_of_isLeg, fun hleg => ?_⟩
  rw [lineOf_of_hides hides hleg]
  exact ⟨rfl, rfl, rfl⟩

/-- A conference that hides its participants, next to another one that is a leg. The links agree. -/
def hiddenConferences (handle gateway : Option String) : CallTable :=
  ⟨[{ id := ⟨1⟩, state := .active, isConference := true, children := [⟨2⟩] },
    { id := ⟨2⟩, state := .active, capabilities := { noChildren := true }, isConference := true, parent := some ⟨1⟩,
      handle := handle, gatewayAddress := gateway },
    { id := ⟨3⟩, state := .onHold, capabilities := { noChildren := true }, isConference := true, handle := handle }]⟩

/-- The gateway's number is the same in both tables, and no listing shows the handles. -/
theorem hidden_address_exact_sameGateway :
    let t := hiddenConferences (some "tel:5550101") (some "tel:5550100")
    let u := hiddenConferences (some "tel:5550102") (some "tel:5550100")
    t.UniqueIds ∧ t.redacted = u.redacted ∧ t.isSettled = true ∧ t ≠ u ∧ ofCalls t = ofCalls u ∧
    ∃ x ∈ byCall t, x.1.id = ⟨3⟩ ∧ x.2.number = none ∧ x.2.numberType = -1 ∧ x.2.multiparty = true := by
  intro t u
  have hu : t.UniqueIds := by decide
  have h : t.redacted = u.redacted := by decide
  obtain ⟨hsame, hentry⟩ := hidden_address_exact hu h
  have hnumber : ∀ c ∈ t.calls, ∀ d ∈ u.calls, c.id = d.id → Discloses t c → c.displayNumber = d.displayNumber := by
    decide
  have hlisted : ∃ x ∈ byCall t, x.1.id = ⟨3⟩ ∧ x.1.hidesChildren = true ∧ x.1.parent = none := by decide
  obtain ⟨x, hx, hid, hides, htop⟩ := hlisted
  have hleg : ¬t.IsLeg x.1 := by
    rintro ⟨p, -, hp⟩
    rw [htop] at hp
    cases hp
  exact ⟨hu, h, by decide, by decide, hsame.mpr hnumber, x, hx, hid, (hentry x hx hides).2 hleg⟩

/-- The number of a conference that hides its participants is shown where the conference is a leg. -/
theorem not_forall_hidden_address :
    ¬∀ t u : CallTable, t.UniqueIds → u.UniqueIds → t.redacted = u.redacted →
      ofCalls t = ofCalls u ∧
      ∀ x ∈ byCall t, x.1.hidesChildren = true →
        x.2.number = none ∧ x.2.numberType = -1 ∧ x.2.multiparty = true := by
  intro hall
  obtain ⟨hsame, -⟩ := hall (hiddenConferences (some "tel:5550100") none) (hiddenConferences none none)
    (by decide) (by decide) (by decide)
  exact absurd hsame (by decide)

end Listing
end HandsFree

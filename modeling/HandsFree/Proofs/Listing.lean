import HandsFree.Listing
import HandsFree.Proofs.CallTable.Lookup

/-! Which calls are listed, and in which state. The numbered lines are those between the start and the
    end marker: as long as the numbers fit, no line carries the index of the marker. They belong to the
    listed calls, one to each and in the order of the table. -/

namespace HandsFree.Listing
open CallTable
variable {t : CallTable} {c p : Call} {x : LineState}

/-- The state in which a call is listed, if it is listed. -/
def shownState? (t : CallTable) (c : Call) : Option LineState := (line? t c).map (·.state)

/-- The state of a call before its conference is looked at. -/
def ownState (t : CallTable) (c : Call) : LineState := LineState.ofCall c.state (t.foreground? == some c.id)

/-! ### Lines and entries -/

theorem length_lines_le : (lines t).length ≤ t.calls.length := List.length_filterMap_le _ _

theorem mem_lines {l : Line} : l ∈ lines t ↔ ∃ c ∈ t.calls, line? t c = some l := List.mem_filterMap

/-- Apart from its place, an entry tells what its line tells. -/
theorem map_entries {α : Type} {f : ListEntry → α} {g : Line → α} (h : ∀ (l : Line) i, f (l.entry i) = g l)
    (t : CallTable) : (entries t).map f = (lines t).map g := by
  refine List.ext_getElem (by simp [entries]) fun i hi _ => ?_
  simp only [entries, List.getElem_map, List.getElem_mapIdx, h]

theorem exists_mem_entries_iff {Q : LineState → Prop} :
    (∃ e ∈ entries t, Q e.state) ↔ ∃ c ∈ t.calls, ∃ x ∈ shownState? t c, Q x := by
  constructor
  · rintro ⟨e, he, hq⟩
    obtain ⟨i, hi, rfl⟩ := List.mem_mapIdx.mp he
    obtain ⟨c, hc, hl⟩ := mem_lines.mp (List.getElem_mem hi)
    exact ⟨c, hc, (lines t)[i].state, by rw [shownState?, hl]; rfl, hq⟩
  · rintro ⟨c, hc, x, hx, hq⟩
    obtain ⟨l, hl, rfl⟩ := Option.map_eq_some_iff.mp hx
    obtain ⟨i, hi, hli⟩ := List.getElem_of_mem (mem_lines.mpr ⟨c, hc, hl⟩)
    exact ⟨_, List.mem_mapIdx.mpr ⟨i, hi, rfl⟩, by rw [hli]; exact hq⟩

/-- The end marker looks active, hence every other state comes from a call. -/
theorem exists_mem_ofCalls_iff (hx : x ≠ .active) :
    (∃ e ∈ ofCalls t, e.state = x) ↔ ∃ c ∈ t.calls, shownState? t c = some x := by
  have hentries := exists_mem_entries_iff (t := t) (Q := (· = x))
  simp only [Option.mem_def, exists_eq_right] at hentries
  rw [← hentries]
  constructor
  · rintro ⟨e, he, rfl⟩
    rcases List.mem_append.mp he with he | he
    · exact ⟨e, he, rfl⟩
    · rw [List.mem_singleton] at he
      subst he
      exact absurd rfl hx
  · rintro ⟨e, he, hex⟩
    exact ⟨e, List.mem_append_left _ he, hex⟩

theorem isEndMarker_of_mem_entries (hlen : t.calls.length < UInt32.size - 1) {e : ListEntry} (he : e ∈ entries t) :
    e.isEndMarker = false := by
  obtain ⟨i, hi, rfl⟩ := List.mem_mapIdx.mp he
  have hi' : i + 1 < UInt32.size := by
    have := length_lines_le (t := t)
    omega
  have hne : UInt32.ofNat (i + 1) ≠ 0 := fun h => by
    have h0 := congrArg UInt32.toNat h
    rw [UInt32.toNat_ofNat_of_lt' hi'] at h0
    exact absurd h0 (Nat.succ_ne_zero i)
  simpa [ListEntry.isEndMarker, Line.entry] using hne

theorem filter_ofCalls (hlen : t.calls.length < UInt32.size - 1) :
    ((ofCalls t).filter fun e => !e.isEndMarker) = entries t := by
  have hkeep : ((entries t).filter fun e => !e.isEndMarker) = entries t :=
    List.filter_eq_self.mpr fun e he => by rw [isEndMarker_of_mem_entries hlen he]; rfl
  rw [ofCalls, List.filter_append, hkeep]
  exact List.append_nil _

/-! ### The state of a line -/

theorem ofCall_eq_active_iff (x : CallState) (b : Bool) : LineState.ofCall x b = .active ↔ x = .active := by
  cases x <;> cases b <;> decide

theorem ofCall_eq_held_iff (x : CallState) (b : Bool) : LineState.ofCall x b = .held ↔ x = .onHold := by
  cases x <;> cases b <;> decide

theorem ofCall_eq_alerting_iff (x : CallState) (b : Bool) :
    LineState.ofCall x b = .alerting ↔ x.isOutgoing = true := by
  cases x <;> cases b <;> decide

theorem ofCall_eq_incoming_iff (x : CallState) (b : Bool) :
    LineState.ofCall x b = .incoming ↔ x = .ringing ∧ b = true := by
  cases x <;> cases b <;> decide

/-- A ringing call is incoming or waiting, as it is in the foreground or not. -/
theorem ofCall_ringing_iff (x : CallState) (b : Bool) :
    (LineState.ofCall x b = .incoming ∨ LineState.ofCall x b = .waiting) ↔ x = .ringing := by
  cases x <;> cases b <;> decide

theorem state_ownLine (c : Call) (x : LineState) : (ownLine c x).state = x := by
  unfold ownLine
  split <;> rfl

theorem state_legLine_of_not (h : ¬(p.can .merge = true ∨ p.canSwapLegs = true)) :
    (legLine p c x).state = x := by
  unfold legLine
  split
  · rw [if_neg (by simpa using h)]
  · rfl

theorem state_legLine_of_can (h : p.can .merge = true ∨ p.canSwapLegs = true) {leg : CallId}
    (hleg : p.activeLeg = some leg) : (legLine p c .active).state = if c.id = leg then .active else .held := by
  unfold legLine
  simp only [hleg]
  rw [if_pos (by simpa using h)]

theorem shownState?_of_exposes (he : c.exposesChildren = true) : shownState? t c = none := by
  simp [shownState?, line?, he]

theorem shownState?_of_idle (hx : ownState t c = .idle) : shownState? t c = none := by
  unfold ownState at hx
  simp [shownState?, line?, hx]

/-- A call that is shown is no conference that shows its legs, and is not idle. -/
theorem of_shownState?_eq_some (h : shownState? t c = some x) :
    c.exposesChildren = false ∧ ownState t c ≠ .idle := by
  constructor
  · cases he : c.exposesChildren with
    | false => rfl
    | true =>
      rw [shownState?_of_exposes he] at h
      cases h
  · intro hi
    rw [shownState?_of_idle hi] at h
    cases h

theorem shownState?_of_topLevel (he : c.exposesChildren = false) (hx : ownState t c ≠ .idle)
    (hp : c.parent = none) : shownState? t c = some (ownState t c) := by
  unfold ownState at hx ⊢
  simp [shownState?, line?, he, hx, hp, state_ownLine]

theorem shownState?_of_leg (he : c.exposesChildren = false) (hx : ownState t c ≠ .idle)
    (hp : c.parent.bind t.get? = some p) : shownState? t c = some (legLine p c (ownState t c)).state := by
  unfold ownState at hx ⊢
  simp [shownState?, line?, he, hx, hp]

/-! ### Listed calls -/

/-- The states of a call that has begun and is not about to end. -/
def isReportable : CallState → Bool
  | .new | .disconnecting | .disconnected | .aborted => false
  | .connecting | .selectAccount | .dialing | .ringing | .active | .onHold => true

theorem ofCall_eq_idle_iff (x : CallState) (b : Bool) : LineState.ofCall x b = .idle ↔ isReportable x = false := by
  cases x <;> cases b <;> decide

/-- Whether a call has a line of its own. -/
def hasLine (c : Call) : Bool := !c.exposesChildren && isReportable c.state

/-- The listed calls, in the order of their lines. -/
def listed (t : CallTable) : List Call := t.calls.filter hasLine

/-- The line of a listed call. -/
def lineOf (t : CallTable) (c : Call) : Line :=
  match c.parent.bind t.get? with
  | some conference => legLine conference c (ownState t c)
  | none => ownLine c (ownState t c)

theorem line?_eq (t : CallTable) (c : Call) : line? t c = if hasLine c then some (lineOf t c) else none := by
  have hidle : (c.exposesChildren || ownState t c == .idle) = !hasLine c := by
    have hstate : (ownState t c == .idle) = !isReportable c.state := by
      rw [Bool.eq_iff_iff, beq_iff_eq, Bool.not_eq_true', ownState, ofCall_eq_idle_iff]
    rw [hstate, hasLine, Bool.not_and, Bool.not_not]
  unfold ownState at hidle
  rw [line?]
  by_cases h : hasLine c = true
  · rw [hidle, h, if_pos rfl, Bool.not_true, if_neg Bool.false_ne_true]
    unfold lineOf ownState
    cases c.parent.bind t.get? <;> rfl
  · rw [Bool.not_eq_true] at h
    rw [hidle, h, if_neg Bool.false_ne_true]
    rfl

theorem lines_eq_map (t : CallTable) : lines t = (listed t).map (lineOf t) := by
  rw [← List.filterMap_eq_map, listed, List.filterMap_filter]
  exact List.filterMap_congr fun c _ => line?_eq t c

theorem length_entries (t : CallTable) : (entries t).length = (listed t).length := by
  rw [entries, List.length_mapIdx, lines_eq_map, List.length_map]

/-- The entries of a listing, each with the call that it stands for. -/
def byCall (t : CallTable) : List (Call × ListEntry) := (listed t).zip (entries t)

theorem map_fst_byCall (t : CallTable) : (byCall t).map Prod.fst = listed t :=
  List.map_fst_zip (length_entries t).ge

theorem map_snd_byCall (t : CallTable) : (byCall t).map Prod.snd = entries t :=
  List.map_snd_zip (length_entries t).le

/-- But for its number, an entry is the line of its call. -/
theorem of_mem_byCall {e : ListEntry} (h : (c, e) ∈ byCall t) :
    c ∈ listed t ∧ ∃ i, e = (lineOf t c).entry i := by
  obtain ⟨i, hi, hce⟩ := List.getElem_of_mem h
  simp only [byCall, List.getElem_zip, Prod.mk.injEq] at hce
  obtain ⟨rfl, rfl⟩ := hce
  refine ⟨List.getElem_mem _, UInt32.ofNat (i + 1), ?_⟩
  simp [entries, lines_eq_map]

end HandsFree.Listing

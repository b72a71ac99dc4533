import HandsFree.Proofs.CallTable.Parts
import HandsFree.Proofs.Listing

/-! The shape of a listing, for every table that is not too long to be numbered. The entries are numbered from 1
    without a gap and only the last line ends the listing. Each entry is the line of its own call: it has the
    direction of that call, and its number type goes by its number. An entry is never dialing, and at most one is
    incoming: a ringing call that is in the foreground. -/

namespace HandsFree

namespace Address

/-- Only an international number starts with a plus sign, and its type says so. -/
theorem numberType_cases (number : String) :
    ((∃ rest, number = "+" ++ rest) ∧ numberType number = 145) ∨
    ((¬∃ rest, number = "+" ++ rest) ∧ numberType number = 129) := by
  have hplus : (∃ rest, number = "+" ++ rest) ↔ number.toList.head? = some '+' := by
    rw [List.head?_eq_some_iff]
    constructor
    · rintro ⟨rest, rfl⟩
      exact ⟨rest.toList, String.toList_append⟩
    · rintro ⟨rest, hrest⟩
      refine ⟨String.ofList rest, String.toList_inj.mp ?_⟩
      rw [hrest, String.toList_append, String.toList_ofList, String.toList_ofList]
      rfl
  rw [hplus]
  by_cases h : number.toList.head? = some '+'
  · exact Or.inl ⟨h, if_pos h⟩
  · exact Or.inr ⟨h, if_neg h⟩

end Address

namespace Listing
open CallTable
variable {t : CallTable} {c : Call} {e : ListEntry} {x : Call × ListEntry}

/-- What every entry has in common with its call, and how its number is typed. -/
structure Fits (c : Call) (e : ListEntry) : Prop where
  direction : e.direction = c.direction
  state : e.state ∈ [.active, .held, .alerting, .incoming, .waiting]
  noNumber : e.numberType = -1 ↔ e.number = none
  international : e.numberType = 145 ↔ ∃ rest, e.number = some ("+" ++ rest)
  otherwise : e.numberType = 129 ↔ e.number ≠ none ∧ ¬∃ rest, e.number = some ("+" ++ rest)

/-! ### Numbering -/

theorem map_index_entries (hlen : t.calls.length < UInt32.size - 1) :
    ((entries t).map fun e => e.index.toNat) = List.range' 1 (entries t).length := by
  refine List.ext_getElem (by rw [List.length_map, List.length_range']) fun i hi _ => ?_
  have hi' : 1 + i < UInt32.size := by
    have := length_lines_le (t := t)
    rw [List.length_map, entries, List.length_mapIdx] at hi
    omega
  rw [List.getElem_map, List.getElem_range', Nat.one_mul]
  simp only [entries, List.getElem_mapIdx, Line.entry]
  rw [Nat.add_comm i 1, UInt32.toNat_ofNat_of_lt' hi']

theorem filter_isEndMarker_ofCalls (hlen : t.calls.length < UInt32.size - 1) :
    (ofCalls t).filter ListEntry.isEndMarker = [ListEntry.endMarker] := by
  have hnone : (entries t).filter ListEntry.isEndMarker = [] :=
    List.filter_eq_nil_iff.mpr fun e he => by rw [isEndMarker_of_mem_entries hlen he]; exact Bool.false_ne_true
  rw [ofCalls, List.filter_append, hnone]
  rfl

/-! ### One entry -/

theorem state_legLine_cases (p c : Call) (state : LineState) :
    (legLine p c state).state = state ∨ (legLine p c state).state = .held := by
  unfold legLine
  split
  · split
    · dsimp only
      split
      · exact Or.inl rfl
      · exact Or.inr rfl
    · exact Or.inl rfl
  · exact Or.inl rfl

/-- The state of a call is kept, but for an active leg that is shown as held. -/
theorem state_lineOf_cases (t : CallTable) (c : Call) :
    (lineOf t c).state = ownState t c ∨ (lineOf t c).state = .held := by
  unfold lineOf
  split
  · exact state_legLine_cases _ c _
  · exact Or.inl (state_ownLine c _)

theorem direction_lineOf (t : CallTable) (c : Call) : (lineOf t c).direction = c.direction := by
  unfold lineOf
  split
  · unfold legLine
    split
    · split <;> rfl
    · rfl
  · unfold ownLine
    split <;> rfl

theorem ownState_of_listed (hc : c ∈ listed t) : ownState t c ≠ .idle ∧ ownState t c ≠ .dialing := by
  obtain ⟨-, hline⟩ := List.mem_filter.mp hc
  rw [hasLine, Bool.and_eq_true] at hline
  refine ⟨fun hidle => ?_, LineState.ofCall_ne_dialing _ _⟩
  rw [ownState, ofCall_eq_idle_iff, hline.2] at hidle
  cases hidle

theorem state_lineOf_mem (hc : c ∈ listed t) :
    (lineOf t c).state ∈ [.active, .held, .alerting, .incoming, .waiting] := by
  rcases state_lineOf_cases t c with h | h
  · rw [h]
    obtain ⟨hidle, hdialing⟩ := ownState_of_listed hc
    cases hown : ownState t c with
    | idle => exact absurd hown hidle
    | dialing => exact absurd hown hdialing
    | _ => decide
  · rw [h]
    decide

theorem Line.numberType_cases (l : Line) (i : UInt32) :
    (l.number = none ∧ (l.entry i).numberType = -1) ∨
    ((∃ rest, l.number = some ("+" ++ rest)) ∧ (l.entry i).numberType = 145) ∨
    ((l.number ≠ none ∧ ¬∃ rest, l.number = some ("+" ++ rest)) ∧ (l.entry i).numberType = 129) := by
  unfold Line.entry
  cases l.number with
  | none => exact Or.inl ⟨rfl, rfl⟩
  | some n =>
    refine Or.inr ?_
    simp only [Option.some.injEq, ne_eq, reduceCtorEq, not_false_eq_true, true_and]
    exact Address.numberType_cases n

/-- An entry is the line of the call that it stands for, under its own number. -/
theorem line_of_mem_byCall (hx : x ∈ byCall t) :
    line? t x.1 = some (lineOf t x.1) ∧ x.2 = (lineOf t x.1).entry x.2.index := by
  obtain ⟨c, e⟩ := x
  obtain ⟨hc, i, rfl⟩ := of_mem_byCall hx
  obtain ⟨-, hline⟩ := List.mem_filter.mp hc
  rw [line?_eq, if_pos hline]
  exact ⟨rfl, rfl⟩

theorem fits_of_mem_byCall (hx : x ∈ byCall t) : Fits x.1 x.2 := by
  obtain ⟨c, e⟩ := x
  obtain ⟨hc, i, rfl⟩ := of_mem_byCall hx
  have hdirection : ((lineOf t c).entry i).direction = c.direction := direction_lineOf t c
  have hstate := state_lineOf_mem hc
  have hnumber : ((lineOf t c).entry i).number = (lineOf t c).number := rfl
  rcases (lineOf t c).numberType_cases i with ⟨hn, ht⟩ | ⟨⟨rest, hn⟩, ht⟩ | ⟨⟨hn, hplus⟩, ht⟩
  · refine ⟨hdirection, hstate, ?_, ?_, ?_⟩ <;> simp [ht, hnumber, hn]
  · refine ⟨hdirection, hstate, ?_, ?_, ?_⟩ <;> simp [ht, hnumber, hn]
  · refine ⟨hdirection, hstate, ?_, ?_, ?_⟩
    · simp [ht, hnumber, hn]
    · simp only [ht, hnumber]
      exact iff_of_false (by decide) hplus
    · exact iff_of_true ht ⟨hn, hplus⟩

/-! ### Incoming entries -/

/-- An incoming entry stands for the foreground call, and that call rings. -/
theorem foreground?_of_incoming (hx : x ∈ byCall t) (hs : x.2.state = .incoming) :
    t.foreground? = some x.1.id ∧ x.1.state = .ringing := by
  obtain ⟨c, e⟩ := x
  obtain ⟨-, i, rfl⟩ := of_mem_byCall hx
  have hown : ownState t c = .incoming := by
    change (lineOf t c).state = .incoming at hs
    rcases state_lineOf_cases t c with h | h
    · exact h.symm.trans hs
    · rw [h] at hs
      cases hs
  obtain ⟨hringing, hid⟩ := (ofCall_eq_incoming_iff _ _).mp hown
  exact ⟨beq_iff_eq.mp hid, hringing⟩

theorem mem_of_mem_byCall (hx : x ∈ byCall t) : x.1 ∈ t.calls := by
  obtain ⟨c, e⟩ := x
  exact List.mem_of_mem_filter (of_mem_byCall hx).1

/-- A ringing call is in the foreground only if it is the first one and no call is active or on hold. -/
theorem of_incoming (hu : t.UniqueIds) (hx : x ∈ byCall t) (hs : x.2.state = .incoming) :
    t.IsFirst (· = .ringing) x.1 ∧ ¬t.HasTopLevel (· = .active) ∧ ¬t.HasTopLevel (· = .onHold) := by
  obtain ⟨hfore, hringing⟩ := foreground?_of_incoming hx hs
  obtain ⟨f, hf, hid⟩ := exists_isForeground hfore
  obtain rfl : f = x.1 := hu.eq_of_id hf.mem_top.1 (mem_of_mem_byCall hx) hid
  cases hf with
  | active h => cases hringing.symm.trans h.state
  | held _ h => cases hringing.symm.trans h.state
  | ringing hactive hheld h => exact ⟨h, hactive, hheld⟩
  | outgoing _ _ _ h =>
    have hout := h.state
    rw [hringing] at hout
    cases hout

theorem countP_incoming_le (hu : t.UniqueIds) : (ofCalls t).countP (fun e => e.state == .incoming) ≤ 1 := by
  have hbyCall : (ofCalls t).countP (fun e => e.state == .incoming) =
      (byCall t).countP fun x => x.2.state == .incoming := by
    rw [ofCalls, List.countP_append, ← map_snd_byCall, List.countP_map]
    rfl
  have hids : ((byCall t).map fun x => x.1.id).Nodup := by
    rw [← Function.comp_def, ← List.map_map, map_fst_byCall]
    exact (List.filter_sublist.map Call.id).nodup hu
  rw [hbyCall]
  -- Every incoming entry stands for the foreground call, and no two entries stand for calls with one id.
  cases hfore : t.foreground? with
  | none =>
    refine (List.countP_eq_zero.mpr fun x hx hs => ?_).le.trans (Nat.zero_le 1)
    rw [(foreground?_of_incoming hx (beq_iff_eq.mp hs)).1] at hfore
    cases hfore
  | some id =>
    calc (byCall t).countP (fun x => x.2.state == .incoming)
        ≤ (byCall t).countP fun x => x.1.id == id := by
          refine List.countP_mono_left fun x hx hs => ?_
          rw [(foreground?_of_incoming hx (beq_iff_eq.mp hs)).1] at hfore
          exact beq_iff_eq.mpr (Option.some.inj hfore)
      _ = ((byCall t).map fun x => x.1.id).count id := by
          rw [List.count, List.countP_map]
          rfl
      _ ≤ 1 := List.nodup_iff_count_le_one.mp hids id

/-- A listing consists of entries that are numbered from 1 and of the end marker, which is the last line and the
    only one of its kind. The entries stand for the calls that show no legs and have begun and are not about
    to end, one for each and in the order of the table. Each is the line of its own call and fits it. Where ids
    are unique, at most one line is incoming, and an incoming line stands for the first call that rings, while no
    call at top level is active or on hold. -/
theorem listing_shape (hlen : t.calls.length < UInt32.size - 1) :
    ofCalls t = (byCall t).map Prod.snd ++ [ListEntry.endMarker] ∧
    (ofCalls t).filter ListEntry.isEndMarker = [ListEntry.endMarker] ∧
    (byCall t).map (fun x => x.2.index.toNat) = List.range' 1 (byCall t).length ∧
    (byCall t).map Prod.fst = t.calls.filter (fun c => !c.exposesChildren && isReportable c.state) ∧
    (∀ x ∈ byCall t, line? t x.1 = some (lineOf t x.1) ∧ x.2 = (lineOf t x.1).entry x.2.index ∧ Fits x.1 x.2) ∧
    (t.UniqueIds → (ofCalls t).countP (fun e => e.state == .incoming) ≤ 1 ∧
      ∀ x ∈ byCall t, x.2.state = .incoming →
        t.IsFirst (· = .ringing) x.1 ∧ ¬t.HasTopLevel (· = .active) ∧ ¬t.HasTopLevel (· = .onHold)) := by
  refine ⟨?_, filter_isEndMarker_ofCalls hlen, ?_, map_fst_byCall t, fun x hx => ?_, fun hu => ?_⟩
  · rw [map_snd_byCall]
    rfl
  · have hindex := map_index_entries hlen
    rwa [← map_snd_byCall, List.map_map, List.length_map] at hindex
  · obtain ⟨hline, hentry⟩ := line_of_mem_byCall hx
    exact ⟨hline, hentry, fits_of_mem_byCall hx⟩
  · exact ⟨countP_incoming_le hu, fun x => of_incoming hu⟩

/-- A call that rings, a second one behind it, a conference that is being set up with two active legs that can
    be merged, and a call that has ended. -/
def crowdedCalls : CallTable :=
  ⟨[{ id := ⟨1⟩, state := .disconnected },
    { id := ⟨2⟩, state := .ringing, direction := .incoming, handle := some "tel:+15550100" },
    { id := ⟨3⟩, state := .dialing, capabilities := { merge := true }, isConference := true,
      children := [⟨4⟩, ⟨5⟩], activeLeg := some ⟨4⟩ },
    { id := ⟨4⟩, state := .active, parent := some ⟨3⟩ },
    { id := ⟨5⟩, state := .active, parent := some ⟨3⟩ },
    { id := ⟨6⟩, state := .ringing, direction := .incoming, handle := some "tel:5550100" }]⟩

theorem listing_shape_crowdedCalls :
    crowdedCalls.calls.length < UInt32.size - 1 ∧ crowdedCalls.UniqueIds ∧
    (byCall crowdedCalls).map (fun x => x.2.state) = [.incoming, .active, .held, .waiting] ∧
    (byCall crowdedCalls).map (fun x => x.2.index.toNat) = [1, 2, 3, 4] ∧
    (ofCalls crowdedCalls).countP (fun e => e.state == .incoming) ≤ 1 ∧
    ∃ x ∈ byCall crowdedCalls, x.1.id = ⟨2⟩ ∧ x.2.numberType = 145 ∧
      x.2 = (lineOf crowdedCalls x.1).entry x.2.index ∧ Fits x.1 x.2 ∧
      crowdedCalls.IsFirst (· = .ringing) x.1 := by
  have hlen : crowdedCalls.calls.length < UInt32.size - 1 := by decide
  have hu : crowdedCalls.UniqueIds := by decide
  obtain ⟨-, -, hindex, -, hcall, hincoming⟩ := listing_shape hlen
  obtain ⟨hone, hfirst⟩ := hincoming hu
  have hfore : ∃ x ∈ byCall crowdedCalls, x.1.id = ⟨2⟩ ∧ x.2.numberType = 145 ∧ x.2.state = .incoming := by decide
  obtain ⟨x, hx, hid, htype, hs⟩ := hfore
  obtain ⟨-, hentry, hfits⟩ := hcall x hx
  exact ⟨hlen, hu, by decide, hindex, hone, x, hx, hid, htype, hentry, hfits, (hfirst x hx hs).1⟩

end Listing
end HandsFree

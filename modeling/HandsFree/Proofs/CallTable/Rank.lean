import HandsFree.Proofs.CallTable.Edits
import Mathlib.Data.Prod.Lex

/-! The foreground call by rank. An active call comes before one on hold, that before a ringing one and that
    before an outgoing one; of two calls of one rank the earlier in the table comes first. The four searches
    for the foreground call find the call that comes first of all, so a new call takes the foreground only
    with a better rank. -/

namespace HandsFree

/-- The lower the rank, the sooner a call is in the foreground. -/
def CallState.rank? : CallState → Option Nat
  | active => some 0
  | onHold => some 1
  | ringing => some 2
  | connecting | selectAccount | dialing => some 3
  | new | disconnecting | disconnected | aborted => none

theorem CallState.lt_of_rank? {x : CallState} {r : Nat} (h : x.rank? = some r) : r < 4 := by
  cases x <;> cases h <;> decide

/-- The legs of a conference have no rank. -/
def Call.rank? (c : Call) : Option Nat := if c.parent = none then c.state.rank? else none

theorem Call.lt_of_rank? {c : Call} {r : Nat} (h : c.rank? = some r) : r < 4 := by
  unfold Call.rank? at h
  split at h
  · exact CallState.lt_of_rank? h
  · cases h

namespace CallTable

/-- The call at the place `i` has the rank `r`, and no ranked call comes before it. -/
structure Foremost (t : CallTable) (i : Nat) (c : Call) (r : Nat) : Prop where
  place : t.calls[i]? = some c
  rank : c.rank? = some r
  least : ∀ (j : Nat) (d : Call) s, t.calls[j]? = some d → d.rank? = some s → toLex (r, i) ≤ toLex (s, j)

/-- The first call of a rank. -/
def firstOfRank? (t : CallTable) (r : Nat) : Option Call := t.calls.find? (·.rank? == some r)

variable {t u : CallTable} {c call : Call} {id : CallId} {i r s : Nat}

/-! ### The search for each rank -/

theorem firstOfRank?_eq_none_iff : t.firstOfRank? r = none ↔ ∀ c ∈ t.calls, c.rank? ≠ some r := by
  simp only [firstOfRank?, List.find?_eq_none, beq_iff_eq, ne_eq]

theorem firstOfRank?_eq_some_iff : t.firstOfRank? r = some c ↔
    c.rank? = some r ∧ ∃ i : Nat, t.calls[i]? = some c ∧
      ∀ (j : Nat) (d : Call), t.calls[j]? = some d → d.rank? = some r → i ≤ j := by
  rw [firstOfRank?, List.find?_eq_some_iff_getElem, beq_iff_eq]
  refine and_congr_right fun _ => exists_congr fun i => ?_
  constructor
  · rintro ⟨hi, rfl, hbefore⟩
    refine ⟨List.getElem?_eq_getElem hi, fun j d hd hrank => ?_⟩
    obtain ⟨hj, rfl⟩ := List.getElem?_eq_some_iff.mp hd
    by_contra hlt
    have hnot := hbefore j (Nat.lt_of_not_le hlt)
    rw [hrank] at hnot
    simp at hnot
  · rintro ⟨hplace, hfirst⟩
    obtain ⟨hi, rfl⟩ := List.getElem?_eq_some_iff.mp hplace
    refine ⟨hi, rfl, fun j hj => ?_⟩
    rw [Bool.not_eq_true', beq_eq_false_iff_ne]
    intro hrank
    exact Nat.not_le_of_lt hj (hfirst j _ (List.getElem?_eq_getElem (hj.trans hi)) hrank)

theorem firstTopLevel?_eq_firstOfRank? {q : CallState → Bool} (hq : ∀ x : CallState, q x = (x.rank? == some r)) :
    (t.firstTopLevel? fun c => q c.state) = (t.firstOfRank? r).map (·.id) := by
  unfold firstTopLevel? firstOfRank?
  congr 2
  funext c
  unfold Call.isTopLevel Call.rank?
  cases c.parent with
  | none => exact (Bool.true_and _).trans (hq c.state)
  | some id => rfl

/-- The four searches are one, for one rank after the other. -/
theorem foreground?_eq : t.foreground? = ((List.range 4).findSome? t.firstOfRank?).map (·.id) := by
  have hactive : t.active? = (t.firstOfRank? 0).map (·.id) :=
    firstTopLevel?_eq_firstOfRank? (q := fun x => [CallState.active].contains x) fun x => by cases x <;> rfl
  have hheld : t.held? = (t.firstOfRank? 1).map (·.id) :=
    firstTopLevel?_eq_firstOfRank? (q := fun x => [CallState.onHold].contains x) fun x => by cases x <;> rfl
  have hringing : t.ringing? = (t.firstOfRank? 2).map (·.id) :=
    firstTopLevel?_eq_firstOfRank? (q := fun x => [CallState.ringing].contains x) fun x => by cases x <;> rfl
  have houtgoing : t.outgoing? = (t.firstOfRank? 3).map (·.id) :=
    firstTopLevel?_eq_firstOfRank? (q := CallState.isOutgoing) fun x => by cases x <;> rfl
  rw [foreground?, hactive, hheld, hringing, houtgoing]
  change _ = ([0, 1, 2, 3].findSome? t.firstOfRank?).map (·.id)
  simp only [List.findSome?_cons, List.findSome?_nil]
  cases t.firstOfRank? 0 <;> cases t.firstOfRank? 1 <;> cases t.firstOfRank? 2 <;> cases t.firstOfRank? 3 <;> rfl

theorem findSome?_range_eq_some_iff {α : Type} {f : Nat → Option α} {n : Nat} {a : α} :
    (List.range n).findSome? f = some a ↔ ∃ r < n, f r = some a ∧ ∀ s < r, f s = none := by
  induction n with
  | zero => simp
  | succ n ih =>
    rw [List.range_succ, List.findSome?_append, Option.or_eq_some_iff, ih, List.findSome?_eq_none_iff]
    constructor
    · rintro (⟨r, hr, hf, hbefore⟩ | ⟨hnone, hf⟩)
      · exact ⟨r, Nat.lt_succ_of_lt hr, hf, hbefore⟩
      · rw [List.findSome?_singleton] at hf
        exact ⟨n, Nat.lt_succ_self n, hf, fun s hs => hnone s (List.mem_range.mpr hs)⟩
    · rintro ⟨r, hr, hf, hbefore⟩
      rcases Nat.lt_succ_iff_lt_or_eq.mp hr with hr | rfl
      · exact Or.inl ⟨r, hr, hf, hbefore⟩
      · rw [List.findSome?_singleton]
        exact Or.inr ⟨fun s hs => hbefore s (List.mem_range.mp hs), hf⟩

/-! ### The best rank -/

namespace Foremost

theorem mem (h : t.Foremost i c r) : c ∈ t.calls := List.mem_of_getElem? h.place

theorem rank_le (h : t.Foremost i c r) {d : Call} (hd : d ∈ t.calls) (hs : d.rank? = some s) : r ≤ s := by
  obtain ⟨j, hj⟩ := List.mem_iff_getElem?.mp hd
  rcases Prod.Lex.toLex_le_toLex.mp (h.least j d s hj hs) with hlt | ⟨heq, -⟩
  · exact hlt.le
  · exact heq.le

/-- Of the calls with the same rank it is the first. -/
theorem place_le (h : t.Foremost i c r) {j : Nat} {d : Call} (hd : t.calls[j]? = some d) (hr : d.rank? = some r) :
    i ≤ j := by
  rcases Prod.Lex.toLex_le_toLex.mp (h.least j d r hd hr) with hlt | ⟨-, hle⟩
  · exact absurd hlt (Nat.lt_irrefl r)
  · exact hle

end Foremost

theorem findSome?_firstOfRank?_iff : (List.range 4).findSome? t.firstOfRank? = some c ↔ ∃ i r, t.Foremost i c r := by
  rw [findSome?_range_eq_some_iff]
  constructor
  · -- No better rank is taken, and the search for this rank stops at the first place.
    rintro ⟨r, -, hfirst, hbetter⟩
    obtain ⟨hrank, i, hplace, hleast⟩ := firstOfRank?_eq_some_iff.mp hfirst
    refine ⟨i, r, hplace, hrank, fun j d s hd hs => ?_⟩
    rw [Prod.Lex.toLex_le_toLex]
    rcases Nat.lt_trichotomy r s with hlt | rfl | hlt
    · exact Or.inl hlt
    · exact Or.inr ⟨rfl, hleast j d hd hs⟩
    · exact absurd hs (firstOfRank?_eq_none_iff.mp (hbetter s hlt) d (List.mem_of_getElem? hd))
  · rintro ⟨i, r, h⟩
    refine ⟨r, Call.lt_of_rank? h.rank, firstOfRank?_eq_some_iff.mpr ⟨h.rank, i, h.place, fun j d => h.place_le⟩,
      fun s hlt => firstOfRank?_eq_none_iff.mpr fun d hd hs => ?_⟩
    exact Nat.not_le_of_lt hlt (h.rank_le hd hs)

/-- The foreground call comes before every other ranked call. -/
theorem foreground?_eq_some_iff : t.foreground? = some id ↔ ∃ i c r, t.Foremost i c r ∧ c.id = id := by
  rw [foreground?_eq, Option.map_eq_some_iff]
  constructor
  · rintro ⟨c, hc, hid⟩
    obtain ⟨i, r, h⟩ := findSome?_firstOfRank?_iff.mp hc
    exact ⟨i, c, r, h, hid⟩
  · rintro ⟨i, c, r, h, hid⟩
    exact ⟨c, findSome?_firstOfRank?_iff.mpr ⟨i, r, h⟩, hid⟩

theorem foreground?_eq_none_iff_rank? : t.foreground? = none ↔ ∀ c ∈ t.calls, c.rank? = none := by
  rw [foreground?_eq, Option.map_eq_none_iff, List.findSome?_eq_none_iff]
  simp only [firstOfRank?_eq_none_iff, List.mem_range]
  constructor
  · intro h c hc
    refine Option.eq_none_iff_forall_ne_some.mpr fun r hr => h r (Call.lt_of_rank? hr) c hc hr
  · intro h r _ c hc hr
    rw [h c hc] at hr
    cases hr

theorem Foremost.foreground?_eq (h : t.Foremost i c r) : t.foreground? = some c.id :=
  foreground?_eq_some_iff.mpr ⟨i, c, r, h, rfl⟩

/-! ### A new call -/

theorem getElem?_concat_cases {d : Call} {j : Nat} (h : (t.calls ++ [call])[j]? = some d) :
    t.calls[j]? = some d ∨ (j = t.calls.length ∧ d = call) := by
  rw [List.getElem?_append] at h
  split at h
  · exact Or.inl h
  · rename_i hj
    rw [List.getElem?_singleton] at h
    split at h
    · exact Or.inr ⟨by omega, (Option.some.inj h).symm⟩
    · cases h

/-- A call that is no better than the foreground call stays behind it. -/
theorem Foremost.concat_of_le (h : t.Foremost i c s) (hu : u.calls = t.calls ++ [call]) (hr : call.rank? = some r)
    (hle : s ≤ r) : u.Foremost i c s := by
  obtain ⟨hi, -⟩ := List.getElem?_eq_some_iff.mp h.place
  refine ⟨?_, h.rank, fun j d q hd hq => ?_⟩
  · rw [hu, List.getElem?_append_left hi]
    exact h.place
  · rw [hu] at hd
    rcases getElem?_concat_cases hd with hd | ⟨rfl, rfl⟩
    · exact h.least j d q hd hq
    · rw [hr, Option.some.injEq] at hq
      rw [Prod.Lex.toLex_le_toLex, ← hq]
      exact hle.lt_or_eq.imp id fun heq => ⟨heq, hi.le⟩

/-- A call that is better than all others comes first of all. -/
theorem foremost_concat (hu : u.calls = t.calls ++ [call]) (hr : call.rank? = some r)
    (hbetter : ∀ d ∈ t.calls, ∀ s, d.rank? = some s → r < s) : u.Foremost t.calls.length call r := by
  refine ⟨?_, hr, fun j d q hd hq => ?_⟩
  · rw [hu, List.getElem?_concat_length]
  · rw [hu] at hd
    rw [Prod.Lex.toLex_le_toLex]
    rcases getElem?_concat_cases hd with hd | ⟨rfl, rfl⟩
    · exact Or.inl (hbetter d (List.mem_of_getElem? hd) q hq)
    · exact Or.inr ⟨Option.some.inj (hr.symm.trans hq), le_rfl⟩

theorem foreground?_insert_of_none (hid : call.id ∉ t.ids) (hr : call.rank? = some r) (h : t.foreground? = none) :
    (t.insert call).foreground? = some call.id := by
  refine (foremost_concat (calls_insert_new hid) hr fun d hd s hs => ?_).foreground?_eq
  rw [foreground?_eq_none_iff_rank?.mp h d hd] at hs
  cases hs

theorem Foremost.foreground?_insert (h : t.Foremost i c s) (hid : call.id ∉ t.ids) (hr : call.rank? = some r) :
    (t.insert call).foreground? = if r < s then some call.id else t.foreground? := by
  split
  · rename_i hlt
    exact (foremost_concat (calls_insert_new hid) hr fun d hd q hq => hlt.trans_le (h.rank_le hd hq)).foreground?_eq
  · rename_i hle
    rw [h.foreground?_eq]
    exact (h.concat_of_le (calls_insert_new hid) hr (Nat.le_of_not_lt hle)).foreground?_eq

/-- A new call takes the foreground if it has a better rank than the call there, or if there is none. -/
theorem UniqueIds.foreground?_insert_ne_iff (hu : t.UniqueIds) (hid : call.id ∉ t.ids) (hr : call.rank? = some r) :
    ((t.insert call).foreground? ≠ t.foreground? ↔
      t.foreground? = none ∨ ∃ c s, t.foregroundCall? = some c ∧ c.rank? = some s ∧ r < s) ∧
    ((t.insert call).foreground? ≠ t.foreground? → (t.insert call).foreground? = some call.id) := by
  cases hfg : t.foreground? with
  | none =>
    have hnew := foreground?_insert_of_none hid hr hfg
    rw [hnew]
    exact ⟨iff_of_true nofun (Or.inl rfl), fun _ => rfl⟩
  | some j =>
    obtain ⟨i, c, s, h, rfl⟩ := foreground?_eq_some_iff.mp hfg
    have hcall : t.foregroundCall? = some c := by rw [foregroundCall?, hfg, Option.bind_some, hu.get?_of_mem h.mem]
    have hne : call.id ≠ c.id := fun heq => hid (heq ▸ List.mem_map_of_mem h.mem)
    rw [h.foreground?_insert hid hr, hfg]
    by_cases hlt : r < s
    · rw [if_pos hlt]
      exact ⟨iff_of_true (fun heq => hne (Option.some.inj heq)) (Or.inr ⟨c, s, hcall, h.rank, hlt⟩), fun _ => rfl⟩
    · rw [if_neg hlt]
      refine ⟨iff_of_false (fun hself => hself rfl) ?_, fun hself => absurd rfl hself⟩
      rintro (hnone | ⟨d, q, hd, hq, hlt'⟩)
      · cases hnone
      · rw [hcall, Option.some.injEq] at hd
        rw [← hd, h.rank, Option.some.injEq] at hq
        exact hlt (hq ▸ hlt')

/-- The foreground call is the ranked call that comes first of all, by rank and then by place. A new call changes
    that exactly if its rank is better than the rank of the foreground call, or if there was none. -/
theorem foreground?_best (hu : t.UniqueIds) :
    (t.foreground? = none ↔ ∀ c ∈ t.calls, c.rank? = none) ∧
    (∀ id, t.foreground? = some id ↔ ∃ i c r, t.Foremost i c r ∧ c.id = id) ∧
    ∀ call r, call.id ∉ t.ids → call.rank? = some r →
      ((t.insert call).foreground? ≠ t.foreground? ↔
        t.foreground? = none ∨ ∃ c s, t.foregroundCall? = some c ∧ c.rank? = some s ∧ r < s) ∧
      ((t.insert call).foreground? ≠ t.foreground? → (t.insert call).foreground? = some call.id) := by
  refine ⟨foreground?_eq_none_iff_rank?, fun id => foreground?_eq_some_iff, fun call r hid hr => ?_⟩
  exact hu.foreground?_insert_ne_iff hid hr

/-- Two calls ring behind an outgoing one. The active call is a leg of a conference that is not tracked. -/
def callsInLine : CallTable :=
  ⟨[{ id := ⟨1⟩, state := .dialing }, { id := ⟨2⟩, state := .active, parent := some ⟨7⟩ },
    { id := ⟨3⟩, state := .ringing }, { id := ⟨4⟩, state := .ringing }]⟩

/-- The first call that rings is in the foreground. A call on hold takes its place, another one that rings does
    not. -/
theorem foreground?_best_callsInLine : callsInLine.UniqueIds ∧ callsInLine.foreground? = some ⟨3⟩ ∧
    (callsInLine.insert { id := ⟨5⟩, state := .onHold }).foreground? = some ⟨5⟩ ∧
    (callsInLine.insert { id := ⟨5⟩, state := .ringing }).foreground? = callsInLine.foreground? := by
  have hu : callsInLine.UniqueIds := by decide
  have hfg : callsInLine.foregroundCall? = some { id := ⟨3⟩, state := .ringing } := by decide
  obtain ⟨-, -, hinsert⟩ := foreground?_best hu
  have hnew : (⟨5⟩ : CallId) ∉ callsInLine.ids := by decide
  obtain ⟨hhold, htakes⟩ := hinsert { id := ⟨5⟩, state := .onHold } 1 hnew rfl
  obtain ⟨hring, -⟩ := hinsert { id := ⟨5⟩, state := .ringing } 2 hnew rfl
  refine ⟨hu, by decide, htakes (hhold.mpr (Or.inr ⟨_, 2, hfg, rfl, by decide⟩)), by_contra fun hne => ?_⟩
  rcases hring.mp hne with hnone | ⟨c, s, hc, hs, hlt⟩
  · exact absurd hnone (by decide)
  · rw [hfg, Option.some.injEq] at hc
    subst hc
    cases hs
    exact Nat.lt_irrefl 2 hlt

end CallTable
end HandsFree

import HandsFree.Text.Blank
import HandsFree.Text.Cut
import HandsFree.Text.Integer
import Mathlib.Data.List.Basic
import Mathlib.Data.List.TakeWhile
import Mathlib.Data.Nat.Digits.Defs

/-! What cutting, splitting and reading numbers comes to, on the text itself: where a delimiter stands first, when
    a split leaves a single piece, and which texts stand for a number of 32 bits. -/

namespace HandsFree.Text

/-! ### Cutting -/

theorem not_prefix_of_isPrefixOf? {start s : List Char} (h : start.isPrefixOf? s = none) : ¬start <+: s := by
  rintro ⟨r, hr⟩
  rw [List.isPrefixOf?_eq_some_iff_append_eq.mpr hr] at h
  cases h

theorem cutAt?_nil {d : List Char} (hd : d ≠ []) : cutAt? d [] = none :=
  if_neg fun h => hd (List.isEmpty_iff.mp h)

/-- Only a text without the delimiter cannot be cut. -/
theorem cutAt?_eq_none_iff {d : List Char} (hd : d ≠ []) {s : List Char} : cutAt? d s = none ↔ ¬d <:+: s := by
  induction s with
  | nil =>
    rw [cutAt?_nil hd]
    simpa using hd
  | cons c s ih =>
    rw [cutAt?, List.infix_cons_iff]
    cases hp : d.isPrefixOf? (c :: s) with
    | some r =>
      have hstart : d <+: c :: s := ⟨r, List.isPrefixOf?_eq_some_iff_append_eq.mp hp⟩
      simp [hstart]
    | none =>
      have hnot : ¬d <+: c :: s := not_prefix_of_isPrefixOf? hp
      simp only [Option.map_eq_none_iff, ih, hnot, false_or]

theorem dropLast_prefix_append (before d after : List Char) : before ++ d.dropLast <+: before ++ d ++ after := by
  rw [List.append_assoc, List.prefix_append_right_inj]
  exact (List.dropLast_prefix d).trans (List.prefix_append d after)

/-- A text is cut at the first place where the delimiter stands: no other one ends before that one does. -/
theorem cutAt?_eq_some_iff {d : List Char} (hd : d ≠ []) {s before after : List Char} :
    cutAt? d s = some (before, after) ↔ s = before ++ d ++ after ∧ ¬d <:+: before ++ d.dropLast := by
  induction s generalizing before with
  | nil =>
    rw [cutAt?_nil hd]
    simp [hd]
  | cons c s ih =>
    rw [cutAt?]
    cases hp : d.isPrefixOf? (c :: s) with
    | some r =>
      have hs : c :: s = d ++ r := (List.isPrefixOf?_eq_some_iff_append_eq.mp hp).symm
      have hpos : 0 < d.length := List.length_pos_iff.mpr hd
      simp only [Option.some.injEq, Prod.mk.injEq]
      constructor
      · rintro ⟨rfl, rfl⟩
        refine ⟨hs, fun h => ?_⟩
        have hlen := h.length_le
        rw [List.nil_append, List.length_dropLast] at hlen
        omega
      · rintro ⟨hcut, hfirst⟩
        cases before with
        | nil =>
          rw [hs, List.nil_append, List.append_cancel_left_eq] at hcut
          exact ⟨rfl, hcut⟩
        | cons b before =>
          -- The delimiter stands at the very start, before the place of the cut.
          refine absurd (List.IsPrefix.isInfix ?_) hfirst
          refine List.prefix_of_prefix_length_le ⟨r, hs.symm⟩ (hcut ▸ dropLast_prefix_append _ d after) ?_
          rw [List.length_append, List.length_cons, List.length_dropLast]
          omega
    | none =>
      have hnot : ¬d <+: c :: s := not_prefix_of_isPrefixOf? hp
      simp only [Option.map_eq_some_iff, Prod.exists, Prod.mk.injEq]
      constructor
      · rintro ⟨b, a, hba, rfl, rfl⟩
        obtain ⟨rfl, hfirst⟩ := ih.mp hba
        refine ⟨rfl, fun h => ?_⟩
        rcases List.infix_cons_iff.mp h with hstart | hinside
        · exact hnot (hstart.trans (dropLast_prefix_append (c :: b) d a))
        · exact hfirst hinside
      · rintro ⟨hcut, hfirst⟩
        cases before with
        | nil => exact absurd ⟨after, hcut.symm⟩ hnot
        | cons b before =>
          obtain ⟨rfl, rfl⟩ := List.cons.inj hcut
          exact ⟨before, after, ih.mpr ⟨rfl, fun h => hfirst (List.infix_cons h)⟩, rfl, rfl⟩

/-- A text that the start of a delimiter does not occur in cannot hold a part of the delimiter. -/
theorem infix_append_iff {x : Char} {d before s : List Char} (hx : x ∉ before) :
    x :: d <:+: before ++ s ↔ x :: d <:+: s := by
  induction before with
  | nil => rfl
  | cons c before ih =>
    rw [List.mem_cons, not_or] at hx
    rw [List.cons_append, List.infix_cons_iff, List.cons_prefix_cons, ih hx.2]
    simp only [hx.1, false_and, false_or]

/-- The start of a text is taken off if the text has it. -/
theorem dropStart_eq_iff {start s r : List Char} :
    dropStart start s = r ↔ s = start ++ r ∨ ¬start <+: r ∧ s = r := by
  rw [dropStart]
  cases hp : start.isPrefixOf? s with
  | some r' =>
    obtain rfl := List.isPrefixOf?_eq_some_iff_append_eq.mp hp
    have hnot : ¬(¬start <+: r ∧ start ++ r' = r) := fun ⟨hr, heq⟩ => hr ⟨r', heq⟩
    rw [Option.getD_some, List.append_cancel_left_eq, or_iff_left hnot]
  | none =>
    have hnot : ¬start <+: s := not_prefix_of_isPrefixOf? hp
    have hne : s ≠ start ++ r := fun h => hnot ⟨r, h.symm⟩
    rw [Option.getD_none, or_iff_right hne]
    exact ⟨fun h => ⟨h ▸ hnot, h⟩, And.right⟩

/-! ### Trimming -/

theorem ne_nil_of_trim_ne_nil {s : List Char} (h : trim s ≠ []) : s ≠ [] := by
  rintro rfl
  exact h rfl

/-- No white space at either end. -/
structure Trimmed (s : List Char) : Prop where
  head : ∀ c ∈ s.head?, isBlank c = false
  last : ∀ c ∈ s.getLast?, isBlank c = false

/-- What is left of a text once its blank end is cut off starts as the text does. -/
theorem isPrefix_trim (s : List Char) : trim s <+: s.dropWhile isBlank := by
  rw [trim, ← List.reverse_suffix, List.reverse_reverse]
  exact List.dropWhile_suffix isBlank

theorem mem_of_mem_trim {s : List Char} {c : Char} (h : c ∈ trim s) : c ∈ s :=
  (List.dropWhile_sublist isBlank).subset ((isPrefix_trim s).subset h)

theorem isBlank_of_head?_dropWhile {s : List Char} {c : Char} (h : c ∈ (s.dropWhile isBlank).head?) :
    isBlank c = false := by
  have hdrop := List.head?_dropWhile_not isBlank s
  rw [Option.mem_def.mp h] at hdrop
  exact hdrop

theorem trimmed_trim (s : List Char) : Trimmed (trim s) := by
  refine ⟨fun c hc => ?_, fun c hc => ?_⟩
  · refine isBlank_of_head?_dropWhile (s := s) ?_
    obtain ⟨r, hr⟩ := isPrefix_trim s
    rw [← hr, List.head?_append, Option.mem_def.mp hc]
    rfl
  · rw [trim, List.getLast?_reverse] at hc
    exact isBlank_of_head?_dropWhile hc

theorem dropWhile_append_of_head {p : Char → Bool} {u s : List Char} (hu : ∀ c ∈ u, p c = true)
    (hs : ∀ c ∈ s.head?, p c = false) : (u ++ s).dropWhile p = s := by
  rw [List.dropWhile_append_of_pos hu]
  cases s with
  | nil => rfl
  | cons c s => exact List.dropWhile_cons_of_neg (Bool.eq_false_iff.mp (hs c rfl))

/-- Trimming takes white space off the two ends and nothing else. -/
theorem Trimmed.trim_append {u s v : List Char} (hs : Trimmed s) (hu : ∀ c ∈ u, isBlank c = true)
    (hv : ∀ c ∈ v, isBlank c = true) : trim (u ++ s ++ v) = s := by
  have hv' : ∀ c ∈ v.reverse, isBlank c = true := fun c hc => hv c (List.mem_reverse.mp hc)
  have hlast : ∀ c ∈ s.reverse.head?, isBlank c = false := by
    rw [List.head?_reverse]
    exact hs.last
  by_cases hnil : s = []
  · have huv : ∀ c ∈ u ++ v, isBlank c = true := fun c hc => (List.mem_append.mp hc).elim (hu c) (hv c)
    have hdrop := dropWhile_append_of_head huv (s := []) nofun
    rw [List.append_nil] at hdrop
    rw [hnil, List.append_nil, trim, hdrop]
    rfl
  · have hhead : ∀ c ∈ (s ++ v).head?, isBlank c = false := by
      rw [List.head?_append_of_ne_nil s hnil]
      exact hs.head
    rw [trim, List.append_assoc, dropWhile_append_of_head hu hhead, List.reverse_append,
      dropWhile_append_of_head hv' hlast, List.reverse_reverse]

theorem Trimmed.trim_eq {s : List Char} (hs : Trimmed s) : trim s = s := by
  have h := hs.trim_append (u := []) (v := []) nofun nofun
  rwa [List.nil_append, List.append_nil] at h

theorem exists_append_trim (s : List Char) :
    ∃ u v, s = u ++ trim s ++ v ∧ (∀ c ∈ u, isBlank c = true) ∧ ∀ c ∈ v, isBlank c = true := by
  obtain ⟨v, hv⟩ : ∃ v, v = ((s.dropWhile isBlank).reverse.takeWhile isBlank).reverse := ⟨_, rfl⟩
  have hend : trim s ++ v = s.dropWhile isBlank := by
    rw [hv, trim, ← List.reverse_append, List.takeWhile_append_dropWhile, List.reverse_reverse]
  refine ⟨s.takeWhile isBlank, v, ?_, fun c hc => List.mem_takeWhile_imp hc, fun c hc => ?_⟩
  · rw [List.append_assoc, hend, List.takeWhile_append_dropWhile]
  · rw [hv, List.mem_reverse] at hc
    exact List.mem_takeWhile_imp hc

/-- A text is trimmed to what has white space around it and none at its own ends. -/
theorem trim_eq_iff {s w : List Char} :
    trim s = w ↔ Trimmed w ∧
      ∃ u v, s = u ++ w ++ v ∧ (∀ c ∈ u, isBlank c = true) ∧ ∀ c ∈ v, isBlank c = true := by
  constructor
  · rintro rfl
    exact ⟨trimmed_trim s, exists_append_trim s⟩
  · rintro ⟨hw, u, v, rfl, hu, hv⟩
    exact hw.trim_append hu hv

/-! ### The end of a text -/

theorem last_append {p : Char → Prop} {s t : List Char} (hs : ∀ c ∈ s.getLast?, p c) (ht : ∀ c ∈ t.getLast?, p c) :
    ∀ c ∈ (s ++ t).getLast?, p c := by
  intro c hc
  rw [List.getLast?_append, Option.mem_def, Option.or_eq_some_iff] at hc
  rcases hc with hc | ⟨-, hc⟩
  · exact ht c hc
  · exact hs c hc

theorem last_intercalate {p : Char → Prop} {x : Char} (hx : p x) {pieces : List (List Char)}
    (h : ∀ piece ∈ pieces, ∀ c ∈ piece.getLast?, p c) : ∀ c ∈ ([x].intercalate pieces).getLast?, p c := by
  induction pieces with
  | nil => nofun
  | cons piece pieces ih =>
    have hrest := ih fun q hq => h q (List.mem_cons_of_mem piece hq)
    cases pieces with
    | nil =>
      rw [List.intercalate_singleton]
      exact h piece List.mem_cons_self
    | cons q pieces =>
      rw [List.intercalate_cons_cons]
      refine last_append (last_append (h piece List.mem_cons_self) ?_) hrest
      rintro c ⟨⟩
      exact hx

/-! ### Splitting -/

/-- Joined pieces are empty if there is no piece or a single empty one. -/
theorem intercalate_eq_nil_iff {x : Char} {pieces : List (List Char)} :
    [x].intercalate pieces = [] ↔ pieces = [] ∨ pieces = [[]] := by
  match pieces with
  | [] => simp
  | [piece] => simp [List.intercalate_singleton]
  | piece :: q :: pieces => simp [List.intercalate_cons_cons]

theorem not_mem_of_mem_splitOn {x : Char} {s piece : List Char} (h : piece ∈ s.splitOn x) : x ∉ piece := by
  induction s generalizing piece with
  | nil =>
    rw [List.splitOn_nil, List.mem_singleton] at h
    rw [h]
    exact List.not_mem_nil
  | cons c s ih =>
    rw [List.splitOn_cons_eq_if_modifyHead] at h
    split at h
    · rcases List.mem_cons.mp h with rfl | h
      · exact List.not_mem_nil
      · exact ih h
    · rename_i hc
      obtain ⟨p, ps, hps⟩ := List.exists_cons_of_ne_nil (List.splitOn_ne_nil x s)
      rw [hps, List.modifyHead_cons] at h
      rw [hps] at ih
      rcases List.mem_cons.mp h with rfl | h
      · rw [List.mem_cons, not_or]
        refine ⟨fun hx => hc (beq_iff_eq.mpr hx.symm), ih List.mem_cons_self⟩
      · exact ih (List.mem_cons_of_mem p h)

/-- There is one piece more than there are delimiters. -/
theorem length_splitOn (x : Char) (s : List Char) : (s.splitOn x).length = s.count x + 1 := by
  induction s with
  | nil => rfl
  | cons c s ih =>
    rw [List.splitOn_cons_eq_if_modifyHead, List.count_cons]
    split
    · rw [List.length_cons, ih]
    · rw [List.length_modifyHead, ih, Nat.add_zero]

theorem not_mem_of_splitOn_eq_singleton {x : Char} {s piece : List Char} (h : s.splitOn x = [piece]) : x ∉ s := by
  have hlength := length_splitOn x s
  rw [h, List.length_singleton] at hlength
  exact List.count_eq_zero.mp (by omega)

/-! ### Numbers -/

/-- At least one character, and digits only. -/
def IsDigits (ds : List Char) : Prop := ds ≠ [] ∧ ∀ d ∈ ds, d.isDigit = true

theorem isDigits_singleton {d : Char} (h : d.isDigit = true) : IsDigits [d] :=
  ⟨List.cons_ne_nil _ _, List.forall_mem_singleton.mpr h⟩

theorem IsDigits.exists_cons {ds : List Char} (h : IsDigits ds) : ∃ d ds', ds = d :: ds' ∧ d.isDigit = true := by
  cases ds with
  | nil => exact absurd rfl h.1
  | cons d ds => exact ⟨d, ds, rfl, h.2 d List.mem_cons_self⟩

/-- The value of a row of digits by their places: the last one counts units, the one before it tens. -/
def placeValue (ds : List Char) : Nat := Nat.ofDigits 10 (ds.reverse.map digitValue)

/-- The text is a decimal numeral with the given value: digits, with a sign before them or without. -/
inductive Denotes : List Char → Int → Prop
  | plain {ds : List Char} (h : IsDigits ds) : Denotes ds (placeValue ds)
  | plus {ds : List Char} (h : IsDigits ds) : Denotes ('+' :: ds) (placeValue ds)
  | minus {ds : List Char} (h : IsDigits ds) : Denotes ('-' :: ds) (-placeValue ds)

theorem Denotes.ne_nil {s : List Char} {n : Int} (h : Denotes s n) : s ≠ [] := by
  cases h with
  | plain h => exact h.1
  | plus => exact List.cons_ne_nil _ _
  | minus => exact List.cons_ne_nil _ _

theorem ofDigits_eq_placeValue (ds : List Char) : ofDigits ds = placeValue ds := by
  rw [placeValue, Nat.ofDigits_eq_foldr, List.foldr_map, List.foldr_reverse, ofDigits]
  congr 1
  funext n c
  rw [Nat.cast_id, Nat.add_comm]

theorem nat?_eq_some_iff {s : List Char} {n : Nat} : nat? s = some n ↔ IsDigits s ∧ placeValue s = n := by
  have hdigits : (!s.isEmpty && s.all Char.isDigit) = true ↔ IsDigits s := by simp [IsDigits]
  rw [nat?, ← ofDigits_eq_placeValue]
  split
  · rename_i h
    rw [hdigits] at h
    simp [h]
  · rename_i h
    rw [hdigits] at h
    simp [h]

theorem int?_minus (s : List Char) : int? ('-' :: s) = (nat? s).map fun n : Nat => -(n : Int) := by
  rw [int?]
  cases nat? s <;> rfl

theorem int?_plus (s : List Char) : int? ('+' :: s) = (nat? s).map fun n : Nat => (n : Int) := by
  rw [int?]
  cases nat? s <;> rfl

theorem int?_plain {s : List Char} (hminus : ∀ r, s ≠ '-' :: r) (hplus : ∀ r, s ≠ '+' :: r) :
    int? s = (nat? s).map fun n : Nat => (n : Int) := by
  rw [int?]
  · cases nat? s <;> rfl
  · exact hminus
  · exact hplus

theorem denotes_of_int? {s : List Char} {n : Int} (h : int? s = some n) : Denotes s n := by
  by_cases hminus : ∃ r, s = '-' :: r
  · obtain ⟨r, rfl⟩ := hminus
    rw [int?_minus] at h
    obtain ⟨m, hm, rfl⟩ := Option.map_eq_some_iff.mp h
    obtain ⟨hr, rfl⟩ := nat?_eq_some_iff.mp hm
    exact .minus hr
  by_cases hplus : ∃ r, s = '+' :: r
  · obtain ⟨r, rfl⟩ := hplus
    rw [int?_plus] at h
    obtain ⟨m, hm, rfl⟩ := Option.map_eq_some_iff.mp h
    obtain ⟨hr, rfl⟩ := nat?_eq_some_iff.mp hm
    exact .plus hr
  rw [int?_plain (not_exists.mp hminus) (not_exists.mp hplus)] at h
  obtain ⟨m, hm, rfl⟩ := Option.map_eq_some_iff.mp h
  obtain ⟨hs, rfl⟩ := nat?_eq_some_iff.mp hm
  exact .plain hs

theorem Denotes.int?_eq {s : List Char} {n : Int} (h : Denotes s n) : int? s = some n := by
  cases h with
  | minus hds => rw [int?_minus, nat?_eq_some_iff.mpr ⟨hds, rfl⟩, Option.map_some]
  | plus hds => rw [int?_plus, nat?_eq_some_iff.mpr ⟨hds, rfl⟩, Option.map_some]
  | plain hds =>
    -- A sign is no digit, so the text starts with none.
    have hsign : ∀ c r, c.isDigit = false → s ≠ c :: r := by
      rintro c r hc rfl
      rw [hds.2 c List.mem_cons_self] at hc
      cases hc
    rw [int?_plain (fun r => hsign '-' r rfl) (fun r => hsign '+' r rfl), nat?_eq_some_iff.mpr ⟨hds, rfl⟩,
      Option.map_some]

/-- A numeral is read if and only if its value fits. -/
theorem int32?_eq_some_iff {s : List Char} {n : Int32} : int32? s = some n ↔ Denotes s n.toInt := by
  rw [int32?, Option.bind_eq_some_iff]
  constructor
  · rintro ⟨m, hm, h⟩
    split at h
    · rename_i hrange
      rw [Bool.and_eq_true, decide_eq_true_eq, decide_eq_true_eq] at hrange
      obtain rfl := Option.some.inj h
      rw [Int32.toInt_ofInt_of_le hrange.1 hrange.2]
      exact denotes_of_int? hm
    · cases h
  · intro h
    have hlow := n.le_toInt
    have hhigh := n.toInt_lt
    refine ⟨n.toInt, h.int?_eq, ?_⟩
    have hrange : (decide (-2147483648 ≤ n.toInt) && decide (n.toInt < 2147483648)) = true := by
      rw [Bool.and_eq_true, decide_eq_true_eq, decide_eq_true_eq]
      exact ⟨hlow, hhigh⟩
    rw [if_pos hrange, Int32.ofInt_toInt]

end HandsFree.Text

import HandsFree.Proofs.AtCommand.Parts
import Mathlib.Data.String.Basic

/-! The texts that carry a command of the headset, and how every other text is refused. The delimiters are
    looked for anywhere in a text before its name is: a question mark in the argument of a setting makes it a
    query of another name, and `=?` after a query makes it a test, which nothing answers. -/

namespace HandsFree
namespace AtCommand

/-! ### The grammar -/

/-- The text, which begins with the name, carries the command. -/
def Carries (b : List Char) : Command → Prop
  | .answer => b = "A".toList
  | .hangUp => b = "CHUP".toList
  | .listCalls => b = "CLCC".toList
  | .subscriberNumber => b = "CNUM".toList
  | .phoneState => ∃ rest, b = "CIND?".toList ++ rest ∧ ¬['=', '?'] <:+: rest
  | .networkOperator => ∃ rest, b = "COPS?".toList ++ rest ∧ ¬['=', '?'] <:+: rest
  | .sendTone code => ∃ w c, b = "VTS=".toList ++ w ∧ '?' ∉ w ∧ ',' ∉ w ∧ Text.trim w = [c] ∧ code.toInt = c.toNat
  | .callHold code => ∃ w, b = "CHLD=".toList ++ w ∧ '?' ∉ w ∧ ',' ∉ w ∧ Text.Denotes (Text.trim w) code.toInt

/-- The text sets one of the two names that take an argument, whatever the argument is. -/
def TakesArgument (b : List Char) : Prop := ("VTS=".toList <+: b ∨ "CHLD=".toList <+: b) ∧ '?' ∉ b

/-! ### Arguments -/

variable {a : AtCommand} {w : List Char}

theorem arguments_eq_singleton_iff {arg : String} :
    arguments w = some [arg] ↔ w ≠ [] ∧ ',' ∉ w ∧ String.ofList (Text.trim w) = arg := by
  by_cases hw : w = []
  · simp [hw, arguments]
  rw [arguments_of_ne_nil hw, Option.some.injEq, List.map_eq_singleton_iff]
  constructor
  · rintro ⟨piece, hsplit, harg⟩
    have hcomma := Text.not_mem_of_splitOn_eq_singleton hsplit
    rw [List.splitOn_eq_singleton hcomma] at hsplit
    obtain rfl := List.singleton_inj.mp hsplit
    exact ⟨hw, hcomma, harg⟩
  · rintro ⟨-, hcomma, harg⟩
    exact ⟨w, List.splitOn_eq_singleton hcomma, harg⟩

theorem onlyArgument?_eq_some_iff (ha : a.args = arguments w) {s : List Char} :
    a.onlyArgument? = some s ↔ w ≠ [] ∧ ',' ∉ w ∧ Text.trim w = s := by
  have harguments : a.onlyArgument? = some s ↔ a.args = some [String.ofList s] := by
    unfold onlyArgument?
    split
    · rename_i arg h
      rw [h, Option.some.injEq, Option.some.injEq, List.singleton_inj, ← String.ofList_inj, String.ofList_toList]
    · rename_i h
      exact ⟨nofun, fun hone => absurd hone (h _)⟩
  rw [harguments, ha, arguments_eq_singleton_iff, String.ofList_inj]

theorem toInt_ofNat_toNat (c : Char) : (Int32.ofNat c.toNat).toInt = c.toNat := by
  have hvalid := c.valid
  change c.toNat < 0xD800 ∨ 0xDFFF < c.toNat ∧ c.toNat < 0x110000 at hvalid
  exact Int32.toInt_ofNat_of_lt (by omega)

theorem tone?_eq_some_iff (ha : a.args = arguments w) {code : Int32} :
    a.tone? = some code ↔ ',' ∉ w ∧ ∃ c, Text.trim w = [c] ∧ code.toInt = c.toNat := by
  constructor
  · intro h
    unfold tone? at h
    split at h
    · rename_i c honly
      obtain ⟨-, hcomma, htrim⟩ := (onlyArgument?_eq_some_iff ha).mp honly
      obtain rfl := Option.some.inj h
      exact ⟨hcomma, c, htrim, toInt_ofNat_toNat c⟩
    · cases h
  · rintro ⟨hcomma, c, htrim, hcode⟩
    have hw : w ≠ [] := Text.ne_nil_of_trim_ne_nil (by simp [htrim])
    rw [← toInt_ofNat_toNat, Int32.toInt_inj] at hcode
    rw [tone?, (onlyArgument?_eq_some_iff ha).mpr ⟨hw, hcomma, htrim⟩, hcode]

theorem holdCode?_eq_some_iff (ha : a.args = arguments w) {code : Int32} :
    a.holdCode? = some code ↔ ',' ∉ w ∧ Text.Denotes (Text.trim w) code.toInt := by
  rw [holdCode?, Option.bind_eq_some_iff]
  constructor
  · rintro ⟨s, honly, hcode⟩
    obtain ⟨-, hcomma, rfl⟩ := (onlyArgument?_eq_some_iff ha).mp honly
    exact ⟨hcomma, Text.int32?_eq_some_iff.mp hcode⟩
  · rintro ⟨hcomma, hcode⟩
    have hw : w ≠ [] := Text.ne_nil_of_trim_ne_nil hcode.ne_nil
    exact ⟨Text.trim w, (onlyArgument?_eq_some_iff ha).mpr ⟨hw, hcomma, rfl⟩, Text.int32?_eq_some_iff.mpr hcode⟩

/-! ### From the name to the command -/

/-- The names that carry a command, with the kind that each of them takes. -/
def supported : List (String × AtKind) :=
  [("A", .execute), ("CHUP", .execute), ("CLCC", .execute), ("CNUM", .execute), ("CIND", .query), ("COPS", .query),
    ("VTS", .set), ("CHLD", .set)]

theorem mem_supported_query {s : String} : (s, .query) ∈ supported ↔ s = "CIND" ∨ s = "COPS" := by simp [supported]

theorem mem_supported_set {s : String} : (s, .set) ∈ supported ↔ s = "VTS" ∨ s = "CHLD" := by simp [supported]

theorem mem_supported_execute {s : String} :
    (s, .execute) ∈ supported ↔ s = "A" ∨ s = "CHUP" ∨ s = "CLCC" ∨ s = "CNUM" := by simp [supported]

theorem test_not_mem_supported {s : String} : (s, .test) ∉ supported := by simp [supported]

theorem command_of_not_supported (h : (a.name, a.kind) ∉ supported) : a.command = .error (.unsupported a.raw) := by
  unfold command
  split <;> rename_i hname hkind
  all_goals first | rfl | exact absurd (by rw [hname, hkind]; decide) h

theorem command_tone {raw : String} {args : Option (List String)} :
    command ⟨raw, .set, "VTS", args⟩ =
      match tone? ⟨raw, .set, "VTS", args⟩ with
      | some code => .ok (.sendTone code)
      | none => .error (.malformed raw) := rfl

theorem command_hold {raw : String} {args : Option (List String)} :
    command ⟨raw, .set, "CHLD", args⟩ =
      match holdCode? ⟨raw, .set, "CHLD", args⟩ with
      | some code => .ok (.callHold code)
      | none => .error (.malformed raw) := rfl

/-- Only a text that carries a command or takes an argument has a name and a kind that go together. -/
theorem carries_or_takesArgument {b : List Char}
    (h : (String.ofList (Parts.ofBody b).name, (Parts.ofBody b).kind) ∈ supported) :
    (∃ c, Carries b c) ∨ TakesArgument b := by
  obtain ⟨htext, hfits⟩ := Parts.text_ofBody b
  generalize Parts.ofBody b = p at h htext hfits
  obtain ⟨k, n, w⟩ := p
  cases k with
  | test => exact absurd h test_not_mem_supported
  | query =>
    have hrest : ¬['=', '?'] <:+: w := fun hw =>
      hfits.2 (hw.trans (List.suffix_append_of_suffix (List.suffix_cons '?' w)).isInfix)
    rw [mem_supported_query, String.ofList_eq, String.ofList_eq] at h
    rcases h with rfl | rfl
    · exact Or.inl ⟨.phoneState, w, htext.symm, hrest⟩
    · exact Or.inl ⟨.networkOperator, w, htext.symm, hrest⟩
  | set =>
    have hquery : '?' ∉ b := htext ▸ hfits.2
    rw [mem_supported_set, String.ofList_eq, String.ofList_eq] at h
    rcases h with rfl | rfl
    · exact Or.inr ⟨Or.inl ⟨w, htext⟩, hquery⟩
    · exact Or.inr ⟨Or.inr ⟨w, htext⟩, hquery⟩
  | execute =>
    obtain ⟨-, -, hw⟩ := hfits
    obtain rfl : w = [] := hw
    obtain rfl : n = b := (List.append_nil n).symm.trans htext
    rw [mem_supported_execute] at h
    simp only [String.ofList_eq] at h
    rcases h with hb | hb | hb | hb
    · exact Or.inl ⟨.answer, hb⟩
    · exact Or.inl ⟨.hangUp, hb⟩
    · exact Or.inl ⟨.listCalls, hb⟩
    · exact Or.inl ⟨.subscriberNumber, hb⟩

end AtCommand

namespace Command
open AtCommand

variable {text : String}

/-! ### Reading a text -/

theorem ofText_of_nil (hb : body text.toList = []) : ofText text = .error (.malformed "empty AT command") := by
  rw [ofText, ofText_of_body_eq_nil hb]
  rfl

theorem ofText_of_ne_nil (hb : body text.toList ≠ []) :
    ofText text =
      let p := Parts.ofBody (body text.toList)
      AtCommand.command ⟨text, p.kind, String.ofList p.name, arguments p.arguments⟩ := by
  rw [ofText, ofText_of_body_ne_nil hb]
  exact pure_bind _ _

theorem ofText_of_fits {p : Parts} (h : p.Fits) (hb : body text.toList = p.text) (hne : p.text ≠ []) :
    ofText text = AtCommand.command ⟨text, p.kind, String.ofList p.name, arguments p.arguments⟩ := by
  rw [ofText, AtCommand.ofText_of_fits h hb hne]
  exact pure_bind _ _

theorem ofText_executed {name : String} (hb : body text.toList = name.toList) (hne : name.toList ≠ [])
    (hquery : '?' ∉ name.toList) (hset : '=' ∉ name.toList) :
    ofText text = AtCommand.command ⟨text, .execute, name, none⟩ := by
  have hfits : Parts.Fits ⟨.execute, name.toList, []⟩ := ⟨hset, hquery, rfl⟩
  have htext : Parts.text ⟨.execute, name.toList, []⟩ = name.toList := List.append_nil _
  have htextNe : Parts.text ⟨.execute, name.toList, []⟩ ≠ [] := by rwa [htext]
  rw [ofText_of_fits hfits (hb.trans htext.symm) htextNe, String.ofList_toList]
  rfl

theorem ofText_queried (name : String) {rest : List Char} (hb : body text.toList = name.toList ++ '?' :: rest)
    (hset : '=' ∉ name.toList) (hquery : '?' ∉ name.toList) (hrest : ¬['=', '?'] <:+: rest) :
    ofText text = AtCommand.command ⟨text, .query, name, arguments rest⟩ := by
  have htest : ¬['=', '?'] <:+: name.toList ++ '?' :: rest := by rwa [Parts.test_infix_query_iff hset]
  have hfits : Parts.Fits ⟨.query, name.toList, rest⟩ := ⟨hquery, htest⟩
  rw [ofText_of_fits hfits hb (List.append_ne_nil_of_right_ne_nil _ (List.cons_ne_nil _ _)), String.ofList_toList]

theorem ofText_set (name : String) {w : List Char} (hb : body text.toList = name.toList ++ '=' :: w)
    (hset : '=' ∉ name.toList) (hquery : '?' ∉ name.toList) (hw : '?' ∉ w) :
    ofText text = AtCommand.command ⟨text, .set, name, arguments w⟩ := by
  have hbody : '?' ∉ name.toList ++ '=' :: w := by
    rw [List.mem_append, List.mem_cons]
    rintro (h | h | h)
    · exact hquery h
    · cases h
    · exact hw h
  have hfits : Parts.Fits ⟨.set, name.toList, w⟩ := ⟨hset, hbody⟩
  rw [ofText_of_fits hfits hb (List.append_ne_nil_of_right_ne_nil _ (List.cons_ne_nil _ _)), String.ofList_toList]

theorem ofText_of_carries {c : Command} (h : Carries (body text.toList) c) : ofText text = .ok c := by
  cases c with
  | answer => exact ofText_executed h (by decide) (by decide) (by decide)
  | hangUp => exact ofText_executed h (by decide) (by decide) (by decide)
  | listCalls => exact ofText_executed h (by decide) (by decide) (by decide)
  | subscriberNumber => exact ofText_executed h (by decide) (by decide) (by decide)
  | phoneState =>
    obtain ⟨rest, hb, hrest⟩ := h
    exact ofText_queried "CIND" hb (by decide) (by decide) hrest
  | networkOperator =>
    obtain ⟨rest, hb, hrest⟩ := h
    exact ofText_queried "COPS" hb (by decide) (by decide) hrest
  | sendTone code =>
    obtain ⟨w, c, hb, hw, hcomma, htrim, hcode⟩ := h
    rw [ofText_set "VTS" hb (by decide) (by decide) hw, command_tone,
      (tone?_eq_some_iff rfl).mpr ⟨hcomma, c, htrim, hcode⟩]
  | callHold code =>
    obtain ⟨w, hb, hw, hcomma, hcode⟩ := h
    rw [ofText_set "CHLD" hb (by decide) (by decide) hw, command_hold,
      (holdCode?_eq_some_iff rfl).mpr ⟨hcomma, hcode⟩]

theorem ofText_of_takesArgument (h : TakesArgument (body text.toList)) (hno : ∀ c, ¬Carries (body text.toList) c) :
    ofText text = .error (.malformed text) := by
  obtain ⟨⟨w, hb⟩ | ⟨w, hb⟩, hquery⟩ := h
  · have hw : '?' ∉ w := fun hw => hquery (hb ▸ List.mem_append_right _ hw)
    rw [ofText_set "VTS" hb.symm (by decide) (by decide) hw, command_tone]
    split
    · rename_i code htone
      obtain ⟨hcomma, c, hc⟩ := (tone?_eq_some_iff rfl).mp htone
      exact absurd ⟨w, c, hb.symm, hw, hcomma, hc⟩ (hno (.sendTone code))
    · rfl
  · have hw : '?' ∉ w := fun hw => hquery (hb ▸ List.mem_append_right _ hw)
    rw [ofText_set "CHLD" hb.symm (by decide) (by decide) hw, command_hold]
    split
    · rename_i code hhold
      obtain ⟨hcomma, hcode⟩ := (holdCode?_eq_some_iff rfl).mp hhold
      exact absurd ⟨w, hb.symm, hw, hcomma, hcode⟩ (hno (.callHold code))
    · rfl

theorem ofText_of_not_takesArgument (hb : body text.toList ≠ []) (hno : ∀ c, ¬Carries (body text.toList) c)
    (h : ¬TakesArgument (body text.toList)) : ofText text = .error (.unsupported text) := by
  rw [ofText_of_ne_nil hb]
  refine command_of_not_supported fun hsupported => ?_
  rcases carries_or_takesArgument hsupported with ⟨c, hc⟩ | harg
  · exact hno c hc
  · exact h harg

/-- The four ways in which a text is read. -/
theorem ofText_cases (text : String) :
    (body text.toList = [] ∧ ofText text = .error (.malformed "empty AT command")) ∨
    (∃ c, Carries (body text.toList) c ∧ ofText text = .ok c) ∨
    (TakesArgument (body text.toList) ∧ (∀ c, ¬Carries (body text.toList) c) ∧
      ofText text = .error (.malformed text)) ∨
    (body text.toList ≠ [] ∧ (∀ c, ¬Carries (body text.toList) c) ∧ ¬TakesArgument (body text.toList) ∧
      ofText text = .error (.unsupported text)) := by
  by_cases hb : body text.toList = []
  · exact Or.inl ⟨hb, ofText_of_nil hb⟩
  by_cases hc : ∃ c, Carries (body text.toList) c
  · obtain ⟨c, hc⟩ := hc
    exact Or.inr (Or.inl ⟨c, hc, ofText_of_carries hc⟩)
  rw [not_exists] at hc
  by_cases h : TakesArgument (body text.toList)
  · exact Or.inr (Or.inr (Or.inl ⟨h, hc, ofText_of_takesArgument h hc⟩))
  · exact Or.inr (Or.inr (Or.inr ⟨hb, hc, h, ofText_of_not_takesArgument hb hc h⟩))

theorem ofText_eq_ok_iff {c : Command} : ofText text = .ok c ↔ Carries (body text.toList) c := by
  refine ⟨fun h => ?_, ofText_of_carries⟩
  rcases ofText_cases text with ⟨-, hread⟩ | ⟨d, hd, hread⟩ | ⟨-, -, hread⟩ | ⟨-, -, -, hread⟩ <;>
    rw [hread] at h <;> cases h
  exact hd

/-- The refusal of an empty command names no text that could be refused as malformed, so the two stay apart. -/
theorem body_emptyCommand :
    body "empty AT command".toList ≠ [] ∧ ¬TakesArgument (body "empty AT command".toList) := by
  unfold TakesArgument
  decide

theorem ofText_eq_empty_iff : ofText text = .error (.malformed "empty AT command") ↔ body text.toList = [] := by
  refine ⟨fun h => ?_, ofText_of_nil⟩
  rcases ofText_cases text with ⟨hb, -⟩ | ⟨_, -, hread⟩ | ⟨harg, -, hread⟩ | ⟨-, -, -, hread⟩
  · exact hb
  · rw [hread] at h
    cases h
  · rw [hread] at h
    obtain rfl : text = "empty AT command" := CommandError.malformed.inj (Except.error.inj h)
    exact absurd harg body_emptyCommand.2
  · rw [hread] at h
    cases h

theorem ofText_eq_malformed_iff :
    ofText text = .error (.malformed text) ↔
      TakesArgument (body text.toList) ∧ ∀ c, ¬Carries (body text.toList) c := by
  refine ⟨fun h => ?_, fun ⟨harg, hno⟩ => ofText_of_takesArgument harg hno⟩
  rcases ofText_cases text with ⟨hb, hread⟩ | ⟨_, -, hread⟩ | ⟨harg, hno, -⟩ | ⟨-, -, -, hread⟩
  · rw [hread] at h
    obtain rfl : "empty AT command" = text := CommandError.malformed.inj (Except.error.inj h)
    exact absurd hb body_emptyCommand.1
  · rw [hread] at h
    cases h
  · exact ⟨harg, hno⟩
  · rw [hread] at h
    cases h

theorem ofText_eq_unsupported_iff :
    ofText text = .error (.unsupported text) ↔
      body text.toList ≠ [] ∧ (∀ c, ¬Carries (body text.toList) c) ∧ ¬TakesArgument (body text.toList) := by
  refine ⟨fun h => ?_, fun ⟨hb, hno, harg⟩ => ofText_of_not_takesArgument hb hno harg⟩
  rcases ofText_cases text with ⟨-, hread⟩ | ⟨_, -, hread⟩ | ⟨-, -, hread⟩ | ⟨hb, hno, harg, -⟩
  · rw [hread] at h
    cases h
  · rw [hread] at h
    cases h
  · rw [hread] at h
    cases h
  · exact ⟨hb, hno, harg⟩

/-- A text is read as a command of the headset if and only if it carries it. A text without a name and a setting
    whose argument does not fit are malformed; whatever else is not supported. -/
theorem ofText_exact (text : String) :
    (∀ c, ofText text = .ok c ↔ Carries (body text.toList) c) ∧
    (ofText text = .error (.malformed "empty AT command") ↔ body text.toList = []) ∧
    (ofText text = .error (.malformed text) ↔
      TakesArgument (body text.toList) ∧ ∀ c, ¬Carries (body text.toList) c) ∧
    (ofText text = .error (.unsupported text) ↔
      body text.toList ≠ [] ∧ (∀ c, ¬Carries (body text.toList) c) ∧ ¬TakesArgument (body text.toList)) ∧
    ∀ e, ofText text = .error e →
      e = .malformed "empty AT command" ∨ e = .malformed text ∨ e = .unsupported text := by
  refine ⟨fun _ => ofText_eq_ok_iff, ofText_eq_empty_iff, ofText_eq_malformed_iff, ofText_eq_unsupported_iff,
    fun e h => ?_⟩
  rcases ofText_cases text with ⟨-, hread⟩ | ⟨c, -, hread⟩ | ⟨-, -, hread⟩ | ⟨-, -, -, hread⟩
  · rw [hread] at h
    exact Or.inl (Except.error.inj h).symm
  · rw [hread] at h
    cases h
  · rw [hread] at h
    exact Or.inr (Or.inl (Except.error.inj h).symm)
  · rw [hread] at h
    exact Or.inr (Or.inr (Except.error.inj h).symm)

/-- Nobody can ask for the tone of a question mark: this tests for tones. -/
example : ofText "AT+VTS=?" = .error (.unsupported "AT+VTS=?") := by rfl

end Command
end HandsFree

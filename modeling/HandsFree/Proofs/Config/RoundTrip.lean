import HandsFree.Proofs.Config.Written
import HandsFree.Proofs.Json.Skip

/-! Reading a configuration back from a text that stands for it. The object is read member by member, and what has been
    read so far are the fields written so far. -/

namespace HandsFree.Config
open Json
variable {c : Config} {f : Field} {f? : Option Field} {fs seen : List Field} {t : String}
  {k m ms s u v w rest : List Char}

/-! ### Reading values -/

/-- What has been read once the given fields are. -/
def draft (c : Config) (fs : List Field) : Draft where
  logLevel := if .logLevel ∈ fs then some c.logLevel else none
  networkOperator := if .networkOperator ∈ fs then some c.networkOperator else none
  subscriberNumber := if .subscriberNumber ∈ fs then some c.subscriberNumber else none
  videoState := if .videoState ∈ fs then some c.videoState else none

theorem has_draft : (c.draft fs).has f = true ↔ f ∈ fs := by
  cases f <;> simp [Draft.has, draft]

theorem draft_nil (c : Config) : c.draft [] = {} := rfl

theorem getD_ite {α : Type} {p : Prop} [Decidable p] {a d : α} (h : ¬p → a = d) :
    (if p then some a else none).getD d = a := by
  by_cases hp : p
  · rw [if_pos hp, Option.getD_some]
  · rw [if_neg hp, Option.getD_none, h hp]

theorem config_draft (h : ∀ f, f ∉ fs → IsDefault c f) : (c.draft fs).config = c := by
  have hlevel : (c.draft fs).config.logLevel = c.logLevel := getD_ite (h .logLevel)
  have hoperator : (c.draft fs).config.networkOperator = c.networkOperator := getD_ite (h .networkOperator)
  have hnumber : (c.draft fs).config.subscriberNumber = c.subscriberNumber := getD_ite (h .subscriberNumber)
  have hvideo : (c.draft fs).config.videoState = c.videoState := getD_ite (h .videoState)
  generalize (c.draft fs).config = d at hlevel hoperator hnumber hvideo
  cases c
  cases d
  cases hlevel
  cases hoperator
  cases hnumber
  cases hvideo
  rfl

theorem readText_quotes (hu : Blanks u) (h : Quotes t w) (rest : List Char) :
    readText (u ++ (w ++ rest)) = .ok (t, rest) := by
  obtain ⟨h⟩ := h
  simp only [List.append_assoc, List.cons_append, List.nil_append]
  rw [readText, skipBlank_cons hu rfl]
  exact readQuoted_spells h rest

theorem readOptionalText_quotes (hu : Blanks u) (h : Quotes t w) (rest : List Char) :
    readOptionalText (u ++ (w ++ rest)) = .ok (some t, rest) := by
  have htext := readText_quotes (u := []) (List.forall_mem_nil _) h rest
  obtain ⟨h⟩ := h
  simp only [List.append_assoc, List.cons_append, List.nil_append] at htext ⊢
  rw [readOptionalText, skipBlank_cons hu rfl]
  change (readText ('"' :: (_ ++ '"' :: rest))).map (fun x => (some x.1, x.2)) = .ok (some t, rest)
  rw [htext]
  rfl

theorem readOptionalText_null (hu : Blanks u) (rest : List Char) :
    readOptionalText (u ++ ("null".toList ++ rest)) = .ok (none, rest) := by
  have hword := readWord_append ['u', 'l', 'l'] rest
  change readOptionalText (u ++ 'n' :: (['u', 'l', 'l'] ++ rest)) = .ok (none, rest)
  rw [readOptionalText, skipBlank_cons hu rfl]
  change (readWord ['u', 'l', 'l'] (['u', 'l', 'l'] ++ rest)).map (none, ·) = .ok (none, rest)
  rw [hword]
  rfl

theorem readVideoState_quotes {x : VideoState} (hu : Blanks u) (h : Quotes x.key w) (rest : List Char) :
    readVideoState (u ++ (w ++ rest)) = .ok (x, rest) := by
  obtain ⟨h⟩ := h
  simp only [List.append_assoc, List.cons_append, List.nil_append]
  rw [readVideoState, skipBlank_cons hu rfl]
  simp only [readQuoted_spells h, videoStateNamed, VideoState.ofKey?_key, bind, Except.bind]

theorem readField_writes (hu : Blanks u) (h : WritesValue c f w) (rest : List Char) :
    readField (c.draft fs) f (u ++ (w ++ rest)) = .ok (c.draft (fs ++ [f]), rest) := by
  cases f with
  | logLevel =>
    have hread : readOptionalText (u ++ (w ++ rest)) = .ok (c.logLevel, rest) := by
      rcases h with ⟨t, ht, h⟩ | ⟨hnone, rfl⟩
      · rw [ht, readOptionalText_quotes hu h]
      · rw [hnone, readOptionalText_null hu]
    rw [readField, hread]
    simp [Except.map, draft]
  | networkOperator =>
    rw [readField, readText_quotes hu h]
    simp [Except.map, draft]
  | subscriberNumber =>
    rw [readField, readText_quotes hu h]
    simp [Except.map, draft]
  | videoState =>
    rw [readField, readVideoState_quotes hu h]
    simp [Except.map, draft]

/-! ### Reading members -/

/-- Reads members from before the opening quote of a key. -/
def readFrom (d : Draft) (s : List Char) : Except Fault (Draft × List Char) := readToken '"' s >>= readMembers d

/-- Reads on after a member. -/
def onward (d : Draft) (s : List Char) : Except Fault (Draft × List Char) :=
  afterMember s >>= fun
    | .finished r => .ok (d, r)
    | .key r => readMembers d r

theorem readMembers_eq (d : Draft) (s : List Char) :
    readMembers d s = readMember d s >>= fun (d', r) => onward d' r := by
  rw [readMembers]
  split
  · rename_i e he
    rw [he]
    rfl
  · rename_i d' r hr
    rw [hr]
    change _ = onward d' r
    rw [onward]
    split
    · rename_i e he
      rw [he]
      rfl
    · rename_i r' hr'
      rw [hr']
      rfl
    · rename_i r' hr'
      rw [hr']
      rfl

theorem readFrom_cons (hu : Blanks u) (d : Draft) (s : List Char) : readFrom d (u ++ '"' :: s) = readMembers d s := by
  rw [readFrom, readToken_append hu rfl]
  rfl

theorem skipBlank_blanks (hu : Blanks u) (s : List Char) : skipBlank (u ++ s) = skipBlank s :=
  List.dropWhile_append_of_pos fun c hc => isBlank_iff.mpr (hu c hc)

theorem onward_blanks (hu : Blanks u) (d : Draft) (s : List Char) : onward d (u ++ s) = onward d s := by
  rw [onward, afterMember, skipBlank_blanks hu]
  rfl

theorem onward_closing (d : Draft) (s : List Char) : onward d ('}' :: s) = .ok (d, s) := rfl

theorem onward_comma (d : Draft) (s : List Char) : onward d (',' :: s) = readFrom d s := by
  have hafter : afterMember (',' :: s) = (readToken '"' s).map .key := rfl
  rw [onward, hafter, readFrom]
  cases readToken '"' s <;> rfl

theorem ofKey?_eq_none {key : String} (h : ∀ f : Field, f.key ≠ key) : Field.ofKey? key = none := by
  rw [Field.ofKey?, List.find?_eq_none]
  exact fun f _ hf => h f (beq_iff_eq.mp hf)

theorem readMember_known (hk : SpellsAll f.key.toList k) (hu : Blanks u) (hv : Blanks v) (hw : WritesValue c f w)
    (hnew : f ∉ seen) (rest : List Char) :
    readMember (c.draft seen) (k ++ '"' :: (u ++ ':' :: (v ++ (w ++ rest)))) = .ok (c.draft (seen ++ [f]), rest) := by
  have hhas : (c.draft seen).has f = false := by
    rw [← Bool.not_eq_true, has_draft]
    exact hnew
  simp only [readMember, readQuoted_spells hk, Field.ofKey?_key, hhas, readToken_append (c := ':') hu rfl,
    readField_writes hv hw, bind, Except.bind, Bool.false_eq_true, if_false]

theorem readMember_repeated (hk : SpellsAll f.key.toList k) (hseen : f ∈ seen) (rest : List Char) :
    readMember (c.draft seen) (k ++ '"' :: rest) = .error .wrongType := by
  simp only [readMember, readQuoted_spells hk, Field.ofKey?_key, has_draft.mpr hseen, bind, Except.bind, if_true]

theorem readMember_unknown {key : String} (hkey : ∀ f : Field, f.key ≠ key) (hk : SpellsAll key.toList k)
    (hu : Blanks u) (hv : Blanks v) (hw : IsJson .value w) (hrest : Stops extendsNumeral rest) (d : Draft) :
    readMember d (k ++ '"' :: (u ++ ':' :: (v ++ (w ++ rest)))) = .ok (d, rest) := by
  simp only [readMember, readQuoted_spells hk, ofKey?_eq_none hkey, readToken_append (c := ':') hu rfl,
    skipValue_append hw hv hrest, bind, Except.bind]

theorem readFrom_member (hm : IsMember c f? m) (hnew : ∀ f ∈ f?, f ∉ seen) (hu : Blanks u)
    (hrest : Stops extendsNumeral rest) :
    readFrom (c.draft seen) (u ++ (m ++ rest)) = onward (c.draft (seen ++ f?.toList)) rest := by
  rcases hm with ⟨⟨hk⟩, hv, hw, hvalue⟩ | ⟨hkey, ⟨hk⟩, hv, hw, hvalue⟩
  · simp only [List.append_assoc, List.cons_append, List.nil_append]
    rw [readFrom_cons hu, readMembers_eq, readMember_known hk hv hw hvalue (hnew _ rfl)]
    rfl
  · simp only [List.append_assoc, List.cons_append, List.nil_append]
    rw [readFrom_cons hu, readMembers_eq, readMember_unknown hkey hk hv hw hvalue hrest, Option.toList_none,
      List.append_nil]
    rfl

/-- The members that follow are read one by one; the induction is over them, from any fields read before. -/
theorem readFrom_members (seen : List Field) (hms : AreMembers c fs ms) (hfs : (seen ++ fs).Nodup) (hu : Blanks u)
    (hrest : Stops extendsNumeral rest) :
    readFrom (c.draft seen) (u ++ (ms ++ rest)) = onward (c.draft (seen ++ fs)) rest := by
  induction hms generalizing seen u with
  | @last f? m w hm hw =>
    have hnew : ∀ f ∈ f?, f ∉ seen := fun f hf hseen =>
      (List.nodup_append.mp hfs).2.2 f hseen f (Option.mem_toList.mpr hf) rfl
    rw [List.append_assoc, readFrom_member hm hnew hu (stops_blanks hw hrest), onward_blanks hw]
  | @more f? fs m w v ms hm hw hv _ ih =>
    have hnew : ∀ f ∈ f?, f ∉ seen := fun f hf hseen =>
      (List.nodup_append.mp hfs).2.2 f hseen f (List.mem_append_left fs (Option.mem_toList.mpr hf)) rfl
    have hfs' : (seen ++ f?.toList ++ fs).Nodup := by rwa [List.append_assoc]
    have htail := ih (seen ++ f?.toList) hfs' hv
    simp only [List.append_assoc, List.cons_append] at htail ⊢
    rw [readFrom_member hm hnew hu (stops_blanks hw (stops_cons rfl)), onward_blanks hw, onward_comma, htail]

/-! ### Reading objects -/

theorem exists_cons_of_members (hms : AreMembers c fs ms) : ∃ r, ms = '"' :: r := by
  have hmember : ∀ {f? m}, IsMember c f? m → ∃ r, m = '"' :: r := by
    intro f? m hm
    rcases hm with ⟨⟨_⟩, _⟩ | ⟨_, ⟨_⟩, _⟩
    · exact ⟨_, rfl⟩
    · exact ⟨_, rfl⟩
  rcases hms with ⟨hm⟩ | ⟨hm⟩
  · obtain ⟨r, rfl⟩ := hmember hm
    exact ⟨_, rfl⟩
  · obtain ⟨r, rfl⟩ := hmember hm
    exact ⟨_, rfl⟩

theorem readObject_members (hu : Blanks u) (hms : AreMembers c fs ms) (hfs : fs.Nodup)
    (hrest : Stops extendsNumeral rest) : readObject (u ++ (ms ++ rest)) = onward (c.draft fs) rest := by
  have hread := readFrom_members [] hms hfs hu hrest
  obtain ⟨r, rfl⟩ := exists_cons_of_members hms
  rw [List.cons_append] at hread ⊢
  rw [readFrom_cons hu] at hread
  rw [readObject, skipBlank_cons hu rfl]
  exact hread

theorem readObject_inside (hw : IsInside c fs w) (hfs : fs.Nodup) (rest : List Char) :
    readObject (w ++ '}' :: rest) = .ok (c.draft fs, rest) := by
  cases hw with
  | nothing hu =>
    rw [readObject, skipBlank_cons hu rfl, draft_nil]
    rfl
  | members hu hms => rw [List.append_assoc, readObject_members hu hms hfs (stops_cons rfl), onward_closing]

/-- A text is read as one object with white space around it. -/
theorem ofJson_object {text : String} (htext : text.toList = u ++ '{' :: s) (hu : Blanks u) :
    ofJson text = readObject s >>= fun (d, r) =>
      match skipBlank r with
      | [] => .ok d.config
      | _ => .error .malformed := by
  rw [ofJson, htext, skipBlank_cons hu rfl]
  rfl

theorem ofJson_writes {text : String} (h : Writes c text.toList) : ofJson text = .ok c := by
  generalize htext : text.toList = whole at h
  rcases h with @⟨fs, u, v, w, hu, hw, hv, hfs, hdefault⟩
  have hobject : text.toList = u ++ '{' :: (w ++ '}' :: v) := by
    rw [htext, List.append_assoc]
    rfl
  have hend : skipBlank v = [] := by
    have hblank := skipBlank_blanks hv []
    rwa [List.append_nil] at hblank
  rw [ofJson_object hobject hu, readObject_inside hw hfs]
  change (match skipBlank v with | [] => Except.ok (c.draft fs).config | _ => .error Fault.malformed) = .ok c
  rw [hend, config_draft hdefault]

theorem ofJson_repeats {text : String} (h : Repeats c text.toList) : ofJson text = .error .wrongType := by
  generalize htext : text.toList = whole at h
  rcases h with @⟨f, fs, u, v, x, ms, k, hu, hv, hms, hfs, hx, hf, ⟨hk⟩, rest⟩
  rename_i k
  have hobject : text.toList = u ++ '{' :: (v ++ (ms ++ ',' :: (x ++ '"' :: (k ++ '"' :: rest)))) := by
    simp only [htext, List.append_assoc, List.cons_append, List.nil_append]
  have hread : readObject (v ++ (ms ++ ',' :: (x ++ '"' :: (k ++ '"' :: rest)))) = .error .wrongType := by
    rw [readObject_members hv hms hfs (stops_cons rfl), onward_comma, readFrom_cons hx, readMembers_eq,
      readMember_repeated hk hf]
    rfl
  rw [ofJson_object hobject hu, hread]
  rfl

/-- A configuration can be written with its fields in any order, and from any text that stands for it the whole
    configuration is read. A field that is written a second time is refused at its key, whatever may follow. -/
theorem ofJson_written (c : Config) :
    (∀ fs : List Field, fs.Nodup → (∀ f, f ∉ fs → IsDefault c f) → Writes c (render c fs).toList) ∧
    (∀ text : String, Writes c text.toList → ofJson text = .ok c) ∧
    ∀ text : String, Repeats c text.toList → ofJson text = .error .wrongType :=
  ⟨fun _ => writes_render c, fun _ => ofJson_writes, fun _ => ofJson_repeats⟩

/-- Only the operator is set, to a character that is a surrogate pair in UTF-16. -/
def operatorOnly : Config := { networkOperator := "😀" }

/-- An unknown key stands first, two fields are left out, and the operator is written in code units. -/
def shuffled : String :=
  " \x7b\"x\" : [-1.5e3,\x7b\"\\ud800\":[ ]\x7d],\n\"default_network_operator\":\"\\ud83d\\ude00\" , \"log_level\":null\x7d"

theorem isJson_nested : IsJson .value "[-1.5e3,\x7b\"\\ud800\":[ ]\x7d]".toList := by
  have hnone : Blanks [] := List.forall_mem_nil _
  have hnumber : IsNumeral (['-'] ++ ['1'] ++ ['.', '5'] ++ ['e', '3']) :=
    .mk (Or.inr rfl) (Text.isDigits_singleton rfl) (by decide) (.digits (Text.isDigits_singleton rfl))
      (.digits (Or.inl rfl) (Or.inl rfl) (Text.isDigits_singleton rfl))
  have hunit : IsUnit 0xD800 ['d', '8', '0', '0'] := isUnit_unitDigits (by omega)
  have hspace : Blanks [' '] := List.forall_mem_singleton.mpr (by decide)
  have hempty : IsJson .value "[ ]".toList := .empty (b := .array) hspace
  have hobject : IsJson .value "\x7b\"\\ud800\":[ ]\x7d".toList :=
    .full (b := .object) (.last (.key hnone (.unit hunit .nil) hnone hnone) hempty hnone)
  exact .full (b := .array) (.more (.element hnone) (.number hnumber) hnone (.last (.element hnone) hobject hnone))

theorem isDefault_operatorOnly {fs : List Field} (hfs : .networkOperator ∈ fs) (f : Field) (hf : f ∉ fs) :
    IsDefault operatorOnly f := by
  cases f with
  | logLevel => rfl
  | networkOperator => exact absurd hfs hf
  | subscriberNumber => rfl
  | videoState => rfl

theorem writes_shuffled : Writes operatorOnly shuffled.toList := by
  have hnone : Blanks [] := List.forall_mem_nil _
  have hspace : Blanks [' '] := List.forall_mem_singleton.mpr (by decide)
  have hline : Blanks ['\n'] := List.forall_mem_singleton.mpr (by decide)
  have hhigh : IsUnit 0xD83D ['d', '8', '3', 'd'] := isUnit_unitDigits (by omega)
  have hlow : IsUnit 0xDE00 ['d', 'e', '0', '0'] := isUnit_unitDigits (by omega)
  have hpair : Spells '😀' "\\ud83d\\ude00".toList := .pair (by decide) (by decide) hhigh hlow (by decide)
  have hoperator : Quotes "😀" "\"\\ud83d\\ude00\"".toList := .mk (t := "😀") (.cons hpair .nil)
  have hkey : ∀ f : Field, f.key ≠ "x" := by
    intro f
    cases f <;> decide
  have hx : IsMember operatorOnly none "\"x\" : [-1.5e3,\x7b\"\\ud800\":[ ]\x7d]".toList :=
    .unknown hkey (quotes_quote "x") hspace hspace isJson_nested
  have hsecond : IsMember operatorOnly (some .networkOperator)
      "\"default_network_operator\":\"\\ud83d\\ude00\"".toList :=
    .known (quotes_quote _) hnone hnone hoperator
  have hthird : IsMember operatorOnly (some .logLevel) "\"log_level\":null".toList :=
    .known (quotes_quote _) hnone hnone (Or.inr ⟨rfl, rfl⟩)
  have hmembers := AreMembers.more hx hnone hline (.more hsecond hspace hspace (.last hthird hnone))
  exact .mk hspace (.members hnone hmembers) hnone (by decide) (isDefault_operatorOnly (by decide))

/-- A key that is written twice, with nothing of its second value. -/
theorem repeats_logLevel : Repeats {} "\x7b\"log_level\":null,\"log_level\"]".toList := by
  have hnone : Blanks [] := List.forall_mem_nil _
  have hmember : IsMember {} (some .logLevel) "\"log_level\":null".toList :=
    .known (quotes_quote _) hnone hnone (Or.inr ⟨rfl, rfl⟩)
  exact .mk (f := .logLevel) hnone hnone (.last hmember hnone) (by decide) hnone (by decide) (quotes_quote _) [']']

theorem ofJson_written_shuffled :
    Writes operatorOnly (render operatorOnly [.videoState, .networkOperator]).toList ∧
    Writes operatorOnly shuffled.toList ∧ ofJson shuffled = .ok operatorOnly ∧
    Repeats {} "\x7b\"log_level\":null,\"log_level\"]".toList ∧
    ofJson "\x7b\"log_level\":null,\"log_level\"]" = .error .wrongType := by
  obtain ⟨hrender, hread, -⟩ := ofJson_written operatorOnly
  have hrefused := (ofJson_written {}).2.2 _ repeats_logLevel
  have hwrites := hrender [.videoState, .networkOperator] (by decide) (isDefault_operatorOnly (by decide))
  exact ⟨hwrites, writes_shuffled, hread _ writes_shuffled, repeats_logLevel, hrefused⟩

end HandsFree.Config

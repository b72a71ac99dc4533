import HandsFree.Proofs.AtCommand.Parts

/-! Reading AT commands against writing them. A text that is read can be put together again from its name, its kind
    and its arguments, and a command that is written in a form that fits its kind is read back, whatever white space
    surrounds it. -/

namespace HandsFree.AtCommand

/-! ### From a text to its parts -/

/-- The command `a` and the text `rest` of its arguments are what the text `b` is made of. -/
structure MadeOf (b : List Char) (a : AtCommand) (rest : List Char) : Prop where
  text : b = a.name.toList ++ a.kind.delimiter ++ rest
  kind : a.kind = Parts.kindOf b
  test : a.kind = .test → ¬['=', '?'] <:+: a.name.toList
  query : a.kind = .query → '?' ∉ a.name.toList
  set : a.kind = .set → '=' ∉ a.name.toList ∧ '?' ∉ a.name.toList
  execute : a.kind = .execute → '=' ∉ a.name.toList ∧ '?' ∉ a.name.toList ∧ rest = []
  noArgs : a.args = none ↔ rest = []
  args : ∀ args, a.args = some args → ∃ pieces : List (List Char),
    [','].intercalate pieces = rest ∧ (∀ piece ∈ pieces, ',' ∉ piece) ∧ pieces.length = rest.count ',' + 1 ∧
    args = pieces.map fun piece => String.ofList (Text.trim piece)

theorem madeOf_ofBody (raw : String) (b : List Char) :
    MadeOf b ⟨raw, (Parts.ofBody b).kind, String.ofList (Parts.ofBody b).name, arguments (Parts.ofBody b).arguments⟩
      (Parts.ofBody b).arguments := by
  obtain ⟨htext, hfits⟩ := Parts.text_ofBody b
  have hkind : (Parts.ofBody b).kind = Parts.kindOf b := by rw [hfits.kind_eq, htext]
  generalize Parts.ofBody b = p at htext hfits hkind
  obtain ⟨k, n, rest⟩ := p
  constructor
  case text => rw [String.toList_ofList, List.append_assoc, ← htext, Parts.text]
  case kind => exact hkind
  case test =>
    rintro rfl
    rw [String.toList_ofList]
    exact hfits
  case query =>
    rintro rfl
    rw [String.toList_ofList]
    exact hfits.1
  case set =>
    rintro rfl
    rw [String.toList_ofList]
    exact ⟨hfits.1, fun h => hfits.2 (List.mem_append_left _ h)⟩
  case execute =>
    rintro rfl
    rw [String.toList_ofList]
    exact hfits
  case noArgs => exact arguments_eq_none_iff
  case args =>
    intro args hargs
    have hrest : rest ≠ [] := by
      rintro rfl
      cases hargs
    rw [arguments_of_ne_nil hrest] at hargs
    exact ⟨rest.splitOn ',', List.intercalate_splitOn ',', fun _ => Text.not_mem_of_mem_splitOn,
      Text.length_splitOn ',' rest, (Option.some.inj hargs).symm⟩

/-- Only the four empty texts are refused. Whatever else is read says what the text is made of, the white space
    around its arguments apart. -/
theorem ofText_madeOf (text : String) :
    ((∃ e, ofText text = .error e) ↔ Text.trim text.toList ∈ emptyTexts) ∧
    (Text.trim text.toList ∉ emptyTexts →
      ∃ a rest, ofText text = .ok a ∧ a.raw = text ∧ MadeOf (body text.toList) a rest) := by
  rw [← body_eq_nil_iff]
  constructor
  · constructor
    · rintro ⟨e, he⟩
      by_contra hb
      rw [ofText_of_body_ne_nil hb] at he
      cases he
    · intro hb
      exact ⟨_, ofText_of_body_eq_nil hb⟩
  · intro hb
    exact ⟨_, _, ofText_of_body_ne_nil hb, rfl, madeOf_ofBody text _⟩

/-- A text with overlapping delimiters. -/
theorem ofText_madeOf_overlap : ∃ a rest, ofText " AT+A==?b , c?=?" = .ok a ∧ a.raw = " AT+A==?b , c?=?" ∧
    MadeOf "A==?b , c?=?".toList a rest :=
  (ofText_madeOf " AT+A==?b , c?=?").2 (by decide)

/-! ### From the parts to a text -/

/-- A command as it is written. -/
def render (name : String) (kind : AtKind) (args : List String) : String :=
  "AT+" ++ name ++ String.ofList kind.delimiter ++ ",".intercalate args

/-- Name, kind and arguments have a written form that tells them apart. -/
structure Renderable (name : String) (kind : AtKind) (args : List String) : Prop where
  nonempty : name ≠ ""
  plain : '=' ∉ name.toList ∧ '?' ∉ name.toList
  last : ∀ c ∈ name.toList.getLast?, Text.isBlank c = false
  comma : ∀ arg ∈ args, ',' ∉ arg.toList
  trimmed : ∀ arg ∈ args, Text.Trimmed arg.toList
  ne_empty : args ≠ [""]
  joined : match kind with
    | .execute => args = []
    | .set => '?' ∉ (",".intercalate args).toList
    | .query => ¬['=', '?'] <:+: (",".intercalate args).toList
    | .test => True

def joinedParts (name : String) (kind : AtKind) (args : List String) : Parts :=
  ⟨kind, name.toList, [','].intercalate (args.map String.toList)⟩

variable {name : String} {kind : AtKind} {args : List String}

theorem toList_render : (render name kind args).toList = "AT+".toList ++ (joinedParts name kind args).text := by
  simp [render, joinedParts, Parts.text, String.toList_intercalate]

namespace Renderable

-- The name holds neither delimiter, so each of them is looked for in the joined arguments alone.
theorem fits (h : Renderable name kind args) : (joinedParts name kind args).Fits := by
  obtain ⟨hset, hquery⟩ := h.plain
  have hjoined := h.joined
  rw [String.toList_intercalate] at hjoined
  cases kind with
  | test => exact fun htest => hset (htest.subset List.mem_cons_self)
  | query => exact ⟨hquery, fun htest => hjoined ((Parts.test_infix_query_iff hset).mp htest)⟩
  | set =>
    refine ⟨hset, fun hmem => ?_⟩
    rcases List.mem_append.mp hmem with hn | hw
    · exact hquery hn
    · rcases List.mem_cons.mp hw with hd | hw
      · cases hd
      · exact hjoined hw
  | execute =>
    obtain rfl : args = [] := hjoined
    exact ⟨hset, hquery, rfl⟩

theorem trimmed_text (h : Renderable name kind args) : Text.Trimmed ("AT+".toList ++ (joinedParts name kind args).text) where
  head := by
    rintro c ⟨⟩
    decide
  last := by
    have hdelimiter : ∀ c ∈ kind.delimiter.getLast?, Text.isBlank c = false := by
      cases kind <;> rintro c ⟨⟩ <;> decide
    have hjoined : ∀ c ∈ ([','].intercalate (args.map String.toList)).getLast?, Text.isBlank c = false := by
      refine Text.last_intercalate (by decide) fun piece hpiece => ?_
      obtain ⟨arg, harg, rfl⟩ := List.mem_map.mp hpiece
      exact (h.trimmed arg harg).last
    refine Text.last_append ?_ (Text.last_append h.last (Text.last_append hdelimiter hjoined))
    rintro c ⟨⟩
    decide

theorem arguments_joined (h : Renderable name kind args) :
    arguments (joinedParts name kind args).arguments = if args = [] then none else some args := by
  split
  · rename_i hargs
    subst hargs
    rfl
  · rename_i hargs
    have hne : [','].intercalate (args.map String.toList) ≠ [] := by
      intro hnil
      rcases Text.intercalate_eq_nil_iff.mp hnil with hmap | hmap
      · exact hargs (List.map_eq_nil_iff.mp hmap)
      · obtain ⟨arg, rfl, harg⟩ := List.map_eq_singleton_iff.mp hmap
        rw [String.toList_eq_nil_iff] at harg
        exact h.ne_empty (congrArg (fun a => [a]) harg)
    have hcomma : ∀ piece ∈ args.map String.toList, ',' ∉ piece := by
      intro piece hpiece
      obtain ⟨arg, harg, rfl⟩ := List.mem_map.mp hpiece
      exact h.comma arg harg
    rw [joinedParts, arguments_intercalate hcomma hne, List.map_map]
    congr 1
    conv_rhs => rw [← List.map_id args]
    refine List.map_congr_left fun arg harg => ?_
    rw [Function.comp_apply, (h.trimmed arg harg).trim_eq, String.ofList_toList, id_eq]

end Renderable

/-- A written command is read back with its name, its kind and its arguments. -/
theorem ofText_render (h : Renderable name kind args) {u v : String} (hu : ∀ c ∈ u.toList, Text.isBlank c = true)
    (hv : ∀ c ∈ v.toList, Text.isBlank c = true) :
    ofText (u ++ render name kind args ++ v) =
      .ok { raw := u ++ render name kind args ++ v, kind := kind, name := name
            args := if args = [] then none else some args } := by
  have hbody : body (u ++ render name kind args ++ v).toList = (joinedParts name kind args).text := by
    rw [String.toList_append, String.toList_append, toList_render]
    exact body_eq_iff.mpr ⟨_, .whole _, h.trimmed_text, u.toList, v.toList, rfl, hu, hv⟩
  have hne : (joinedParts name kind args).text ≠ [] := fun hnil =>
    h.nonempty (String.toList_eq_nil_iff.mp (List.append_eq_nil_iff.mp hnil).1)
  rw [ofText_of_fits h.fits hbody hne, h.arguments_joined, joinedParts, String.ofList_toList]

/-- The delimiter of a setting stands in an argument of a query. -/
theorem ofText_render_query :
    ofText ("\t" ++ render "COPS" .query ["a=1", ""] ++ " ") =
      .ok { raw := "\tAT+COPS?a=1, ", kind := .query, name := "COPS", args := some ["a=1", ""] } := by
  have htrimmed : ∀ arg ∈ ["a=1", ""], Text.Trimmed arg.toList := by
    intro arg harg
    rcases List.mem_pair.mp harg with rfl | rfl
    · constructor <;> rintro c ⟨⟩ <;> rfl
    · constructor <;> rintro c ⟨⟩
  have hlast : ∀ c ∈ "COPS".toList.getLast?, Text.isBlank c = false := by
    rintro c ⟨⟩
    rfl
  exact ofText_render ⟨by decide, by decide, hlast, by decide, htrimmed, by decide, by decide⟩
    (List.all_eq_true.mp rfl) (List.all_eq_true.mp rfl)

end HandsFree.AtCommand

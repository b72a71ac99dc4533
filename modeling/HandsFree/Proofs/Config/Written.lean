import HandsFree.Config.Reader
import HandsFree.Proofs.Json.Quoted

/-! The texts that stand for a configuration. The members may come in any order, with members of other keys between
    them, fields that have their default may be left out, and texts may be spelled in any way. -/

namespace HandsFree.Config
open Json

def WritesValue (c : Config) : Field → List Char → Prop
  | .logLevel, w => (∃ t, c.logLevel = some t ∧ Quotes t w) ∨ c.logLevel = none ∧ w = "null".toList
  | .networkOperator, w => Quotes c.networkOperator w
  | .subscriberNumber, w => Quotes c.subscriberNumber w
  | .videoState, w => Quotes c.videoState.key w

/-- A member for a field of the configuration, or for a key that is no field. -/
inductive IsMember (c : Config) : Option Field → List Char → Prop
  | known {f : Field} {k u v w : List Char} (hk : Quotes f.key k) (hu : Blanks u) (hv : Blanks v)
      (hw : WritesValue c f w) : IsMember c (some f) (k ++ u ++ ':' :: v ++ w)
  | unknown {key : String} {k u v w : List Char} (hkey : ∀ f : Field, f.key ≠ key) (hk : Quotes key k)
      (hu : Blanks u) (hv : Blanks v) (hw : IsJson .value w) : IsMember c none (k ++ u ++ ':' :: v ++ w)

/-- Members with commas between them, and the fields they give. -/
inductive AreMembers (c : Config) : List Field → List Char → Prop
  | last {f? : Option Field} {m u : List Char} (hm : IsMember c f? m) (hu : Blanks u) :
      AreMembers c f?.toList (m ++ u)
  | more {f? : Option Field} {fs : List Field} {m u v ms : List Char} (hm : IsMember c f? m) (hu : Blanks u)
      (hv : Blanks v) (hms : AreMembers c fs ms) : AreMembers c (f?.toList ++ fs) (m ++ u ++ ',' :: v ++ ms)

/-- What the brackets of the object hold. -/
inductive IsInside (c : Config) : List Field → List Char → Prop
  | nothing {u : List Char} (hu : Blanks u) : IsInside c [] u
  | members {fs : List Field} {u ms : List Char} (hu : Blanks u) (hms : AreMembers c fs ms) : IsInside c fs (u ++ ms)

/-- The field has its default value. -/
def IsDefault (c : Config) : Field → Prop
  | .logLevel => c.logLevel = ({} : Config).logLevel
  | .networkOperator => c.networkOperator = ({} : Config).networkOperator
  | .subscriberNumber => c.subscriberNumber = ({} : Config).subscriberNumber
  | .videoState => c.videoState = ({} : Config).videoState

/-- The text is an object of the configuration: no field is written twice, and only defaults are left out. -/
inductive Writes (c : Config) : List Char → Prop
  | mk {fs : List Field} {u v w : List Char} (hu : Blanks u) (hw : IsInside c fs w) (hv : Blanks v) (hfs : fs.Nodup)
      (hdefault : ∀ f, f ∉ fs → IsDefault c f) : Writes c (u ++ '{' :: w ++ '}' :: v)

/-- Such an object up to a comma, and after it the key of a field that was written before. -/
inductive Repeats (c : Config) : List Char → Prop
  | mk {f : Field} {fs : List Field} {u v x ms k : List Char} (hu : Blanks u) (hv : Blanks v)
      (hms : AreMembers c fs ms) (hfs : fs.Nodup) (hx : Blanks x) (hf : f ∈ fs) (hk : Quotes f.key k)
      (rest : List Char) :
      Repeats c (u ++ '{' :: v ++ ms ++ ',' :: x ++ k ++ rest)

/-! ### Plain ways to write a configuration -/

def renderValue (c : Config) : Field → List Char
  | .logLevel => (c.logLevel.map quote).getD "null".toList
  | .networkOperator => quote c.networkOperator
  | .subscriberNumber => quote c.subscriberNumber
  | .videoState => quote c.videoState.key

def renderMember (c : Config) (f : Field) : List Char := quote f.key ++ ':' :: renderValue c f

/-- The members of the given fields in their order, and nothing else. -/
def render (c : Config) (fs : List Field) : String :=
  String.ofList ('{' :: [','].intercalate (fs.map (renderMember c)) ++ ['}'])

theorem writesValue_renderValue (c : Config) (f : Field) : WritesValue c f (renderValue c f) := by
  cases f with
  | logLevel =>
    cases hlevel : c.logLevel with
    | none => exact Or.inr ⟨hlevel, by rw [renderValue, hlevel]; rfl⟩
    | some t => exact Or.inl ⟨t, hlevel, by rw [renderValue, hlevel]; exact quotes_quote t⟩
  | networkOperator => exact quotes_quote _
  | subscriberNumber => exact quotes_quote _
  | videoState => exact quotes_quote _

theorem isMember_renderMember (c : Config) (f : Field) : IsMember c (some f) (renderMember c f) := by
  have h := IsMember.known (quotes_quote f.key) (List.forall_mem_nil _) (List.forall_mem_nil _)
    (writesValue_renderValue c f)
  rwa [List.append_nil, List.append_assoc] at h

theorem areMembers_renderMember (c : Config) (f : Field) (fs : List Field) :
    AreMembers c (f :: fs) ([','].intercalate ((f :: fs).map (renderMember c))) := by
  induction fs generalizing f with
  | nil =>
    have h := AreMembers.last (isMember_renderMember c f) (List.forall_mem_nil _)
    rw [List.append_nil] at h
    exact List.intercalate_singleton ▸ h
  | cons g fs ih =>
    have h := AreMembers.more (isMember_renderMember c f) (List.forall_mem_nil _) (List.forall_mem_nil _) (ih g)
    rw [List.append_nil] at h
    exact List.intercalate_cons_cons ▸ h

theorem isInside_renderMember (c : Config) (fs : List Field) :
    IsInside c fs ([','].intercalate (fs.map (renderMember c))) := by
  cases fs with
  | nil => exact .nothing (List.forall_mem_nil _)
  | cons f fs => exact .members (List.forall_mem_nil _) (areMembers_renderMember c f fs)

/-- The fields may stand in any order, and those that have their default may be left out. -/
theorem writes_render (c : Config) {fs : List Field} (hfs : fs.Nodup) (hdefault : ∀ f, f ∉ fs → IsDefault c f) :
    Writes c (render c fs).toList := by
  have h := Writes.mk (List.forall_mem_nil _) (isInside_renderMember c fs) (List.forall_mem_nil _) hfs hdefault
  rw [render, String.toList_ofList]
  exact h

end HandsFree.Config

import HandsFree.Config.Basic
import HandsFree.Json.Skip
import HandsFree.Json.Wanted

/-! Reading a configuration from a JSON text.

    The text is an object, whose unknown keys are passed over, or an array of the fields in their fixed
    order. A field that is missing keeps its default, and a field given twice is refused. -/

namespace HandsFree.Config

open Json

/-- The fields of a configuration. -/
inductive Field
  | logLevel
  | networkOperator
  | subscriberNumber
  | videoState
  deriving DecidableEq

namespace Field

/-- The fields stand in this order in an array. -/
instance : Coded Field where
  members := [.logLevel, .networkOperator, .subscriberNumber, .videoState]
  mem_members a := by cases a <;> decide
  nodup_members := by decide

def key : Field → String
  | logLevel => "log_level"
  | networkOperator => "default_network_operator"
  | subscriberNumber => "default_subscriber_number"
  | videoState => "default_video_state"

/-- The field with the given key. -/
def ofKey? (key : String) : Option Field := Coded.members.find? (·.key == key)

theorem ofKey?_key (f : Field) : ofKey? f.key = some f := by cases f <;> decide

end Field

/-- The fields read so far. -/
structure Draft where
  logLevel : Option (Option String) := none
  networkOperator : Option String := none
  subscriberNumber : Option String := none
  videoState : Option VideoState := none

namespace Draft

/-- Whether the field has been read. -/
def has (d : Draft) : Field → Bool
  | .logLevel => d.logLevel.isSome
  | .networkOperator => d.networkOperator.isSome
  | .subscriberNumber => d.subscriberNumber.isSome
  | .videoState => d.videoState.isSome

/-- The configuration with all fields read so far, and the default for the others. -/
def config (d : Draft) : Config where
  logLevel := d.logLevel.getD none
  networkOperator := d.networkOperator.getD ""
  subscriberNumber := d.subscriberNumber.getD ""
  videoState := d.videoState.getD .audioOnly

end Draft

/-- The video state with the given name. -/
def videoStateNamed (name : String) : Except Fault VideoState :=
  match VideoState.ofKey? name with
  | some v => .ok v
  | none => .error .wrongType

/-- Reads a video state: its name, or an object whose only key is the name, with a null behind it. The
    key has to be a text, as every key of an object. -/
def readVideoState (s : List Char) : Except Fault (VideoState × List Char) :=
  match skipBlank s with
  | [] => .error .textEnded
  | '"' :: r => do
    let (name, r) ← readQuoted r
    let v ← videoStateNamed name
    .ok (v, r)
  | '{' :: r => do
    let r ← readToken '"' r
    let (name, r) ← readQuoted r
    let v ← videoStateNamed name
    let r ← readToken ':' r
    let r ← readNull r
    let r ← readToken '}' r
    .ok (v, r)
  | _ => .error .malformed

/-- Reads the value of a field. -/
def readField (d : Draft) (f : Field) (s : List Char) : Except Fault (Draft × List Char) :=
  match f with
  | .logLevel =>
    (readOptionalText s).map fun (t, r) => ({ d with logLevel := some t }, r)
  | .networkOperator => (readText s).map fun (t, r) => ({ d with networkOperator := some t }, r)
  | .subscriberNumber => (readText s).map fun (t, r) => ({ d with subscriberNumber := some t }, r)
  | .videoState => (readVideoState s).map fun (v, r) => ({ d with videoState := some v }, r)

/-- Reads a member of an object after the opening quote of its key. -/
def readMember (d : Draft) (s : List Char) : Except Fault (Draft × List Char) := do
  let (key, r) ← readQuoted s
  match Field.ofKey? key with
  | some f =>
    if d.has f then .error .wrongType
    else
      let r ← readToken ':' r
      readField d f r
  | none =>
    let r ← readToken ':' r
    let r ← skipValue r
    .ok (d, r)

theorem length_readVideoState {s r : List Char} {v : VideoState} (h : readVideoState s = .ok (v, r)) :
    r.length < s.length := by
  have hb := length_skipBlank_le s
  unfold readVideoState at h
  split at h
  · cases h
  · rename_i r₀ hs
    obtain ⟨⟨name, r₁⟩, h₁, h⟩ := bind_eq_ok.mp h
    obtain ⟨v', -, h⟩ := bind_eq_ok.mp h
    cases h
    have := length_readQuoted h₁
    rw [hs, List.length_cons] at hb
    omega
  · rename_i r₀ hs
    obtain ⟨r₁, h₁, h⟩ := bind_eq_ok.mp h
    obtain ⟨⟨name, r₂⟩, h₂, h⟩ := bind_eq_ok.mp h
    obtain ⟨v', -, h⟩ := bind_eq_ok.mp h
    obtain ⟨r₃, h₃, h⟩ := bind_eq_ok.mp h
    obtain ⟨r₄, h₄, h⟩ := bind_eq_ok.mp h
    obtain ⟨r₅, h₅, h⟩ := bind_eq_ok.mp h
    cases h
    have := length_readToken h₁
    have := length_readQuoted h₂
    have := length_readToken h₃
    have := length_readNull h₄
    have := length_readToken h₅
    rw [hs, List.length_cons] at hb
    omega
  · cases h

theorem length_readField {d d' : Draft} {f : Field} {s r : List Char}
    (h : readField d f s = .ok (d', r)) : r.length < s.length := by
  cases f <;> obtain ⟨⟨t, r₁⟩, h₁, h⟩ := map_eq_ok.mp h <;> cases h
  · exact length_readOptionalText h₁
  · exact length_readText h₁
  · exact length_readText h₁
  · exact length_readVideoState h₁

theorem length_readMember {d d' : Draft} {s r : List Char} (h : readMember d s = .ok (d', r)) :
    r.length < s.length := by
  obtain ⟨⟨key, r₁⟩, h₁, h⟩ := bind_eq_ok.mp h
  have := length_readQuoted h₁
  simp only at h
  split at h
  · split at h
    · cases h
    · obtain ⟨r₂, h₂, h⟩ := bind_eq_ok.mp h
      have := length_readToken h₂
      have := length_readField h
      omega
  · obtain ⟨r₂, h₂, h⟩ := bind_eq_ok.mp h
    obtain ⟨r₃, h₃, h⟩ := bind_eq_ok.mp h
    cases h
    have := length_readToken h₂
    have := length_skipValue h₃
    omega

/-- What follows a member: the opening quote of the next key, or the end of the object. -/
inductive AfterMember
  | key (rest : List Char)
  | finished (rest : List Char)

/-- Reads on from the end of a member. -/
def afterMember (s : List Char) : Except Fault AfterMember :=
  match skipBlank s with
  | [] => .error .textEnded
  | '}' :: r => .ok (.finished r)
  | ',' :: r => (readToken '"' r).map .key
  | _ => .error .malformed

theorem length_afterMember {s r : List Char} (h : afterMember s = .ok (.key r)) :
    r.length < s.length := by
  have hb := length_skipBlank_le s
  unfold afterMember at h
  split at h
  · cases h
  · cases h
  · rename_i r₀ hs
    obtain ⟨r₁, h₁, h⟩ := map_eq_ok.mp h
    cases h
    have := length_readToken h₁
    rw [hs, List.length_cons] at hb
    omega
  · cases h

/-- Reads the members of an object from the opening quote of a key to the closing bracket. -/
def readMembers (d : Draft) (s : List Char) : Except Fault (Draft × List Char) :=
  match _h : readMember d s with
  | .error fault => .error fault
  | .ok (d', r) =>
    match _h' : afterMember r with
    | .error fault => .error fault
    | .ok (.finished r') => .ok (d', r')
    | .ok (.key r') => readMembers d' r'
termination_by s.length
decreasing_by exact Nat.lt_trans (length_afterMember _h') (length_readMember _h)

/-- Reads an object after its opening bracket. -/
def readObject (s : List Char) : Except Fault (Draft × List Char) :=
  match skipBlank s with
  | [] => .error .textEnded
  | '}' :: r => .ok ({}, r)
  | '"' :: r => readMembers {} r
  | _ => .error .malformed

/-- Reads the values of the given fields from an array, up to its closing bracket. A comma stands before
    every value but the first. -/
def readElements (d : Draft) (isFirst : Bool) (fields : List Field) (s : List Char) :
    Except Fault (Draft × List Char) :=
  match skipBlank s, fields with
  | [], _ => .error .textEnded
  | ']' :: r, _ => .ok (d, r)
  | _ :: _, [] => .error .malformed
  | c :: r, f :: fs =>
    if isFirst then do
      let (d, r) ← readField d f (c :: r)
      readElements d false fs r
    else if c = ',' then
      match skipBlank r with
      | [] => .error .textEnded
      | ']' :: _ => .error .malformed
      | value => do
        let (d, r) ← readField d f value
        readElements d false fs r
    else .error .malformed

/-- Reads a configuration from a text that holds nothing else. -/
def ofJson (text : String) : Except Fault Config := do
  let (d, r) ← match skipBlank text.toList with
    | '{' :: r => readObject r
    | '[' :: r => readElements {} true Coded.members r
    | other => .error (mismatch other)
  match skipBlank r with
  | [] => .ok d.config
  | _ => .error .malformed

end HandsFree.Config

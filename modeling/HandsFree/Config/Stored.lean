import HandsFree.Config.Reader

/-! Loading the configuration from what is stored at a path. Nothing stored means the defaults. -/

namespace HandsFree.Config

/-- What is found at a path. -/
inductive Stored
  | missing
  | directory
  /-- The path leads through something that is no directory. -/
  | blocked
  | file (content : ByteArray)

/-- Why the content of a path cannot be read. -/
inductive StorageFault
  | isDirectory
  | notDirectory
  /-- The content is not UTF-8. -/
  | invalidText
  deriving DecidableEq

/-- Why no configuration is loaded. -/
inductive LoadError
  | storage (fault : StorageFault)
  | json (fault : Json.Fault)
  deriving DecidableEq

/-- Loads the configuration. -/
def Stored.load : Stored → Except LoadError Config
  | .missing => .ok {}
  | .directory => .error (.storage .isDirectory)
  | .blocked => .error (.storage .notDirectory)
  | .file content =>
    match String.fromUTF8? content with
    | some text => (ofJson text).mapError .json
    | none => .error (.storage .invalidText)

/-- Loads the configuration, or takes the defaults where that fails. -/
def Stored.loadOrDefault (s : Stored) : Config :=
  match s.load with
  | .ok config => config
  | .error _ => {}

end HandsFree.Config

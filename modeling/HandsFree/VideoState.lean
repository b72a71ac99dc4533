import HandsFree.Coded

/-! The video state that is requested when a call is answered. -/

namespace HandsFree

inductive VideoState
  | audioOnly
  | txEnabled
  | rxEnabled
  | bidirectional
  deriving DecidableEq

namespace VideoState

instance : Coded VideoState where
  members := [.audioOnly, .txEnabled, .rxEnabled, .bidirectional]
  mem_members a := by cases a <;> decide
  nodup_members := by decide

/-- The name of a video state in a configuration. -/
def key : VideoState → String
  | audioOnly => "audio_only"
  | txEnabled => "tx_enabled"
  | rxEnabled => "rx_enabled"
  | bidirectional => "bidirectional"

/-- The video state with the given name. -/
def ofKey? (name : String) : Option VideoState := Coded.members.find? (·.key == name)

theorem ofKey?_key (v : VideoState) : ofKey? v.key = some v := by cases v <;> decide

end VideoState

end HandsFree

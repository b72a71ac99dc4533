import HandsFree.VideoState

/-! The settings of the service. -/

namespace HandsFree

structure Config where
  /-- The name of the wanted log level. -/
  logLevel : Option String := none
  /-- The operator to report when no account has a label. -/
  networkOperator : String := ""
  /-- The number to report when no account has an address. -/
  subscriberNumber : String := ""
  /-- The video state that is requested when the headset answers a call. -/
  videoState : VideoState := .audioOnly
  deriving DecidableEq

inductive LogLevel
  | off
  | error
  | warn
  | info
  | debug
  | trace
  deriving DecidableEq

namespace LogLevel

instance : Coded LogLevel where
  members := [.off, .error, .warn, .info, .debug, .trace]
  mem_members a := by cases a <;> decide
  nodup_members := by decide

def name : LogLevel → String
  | off => "off"
  | error => "error"
  | warn => "warn"
  | info => "info"
  | debug => "debug"
  | trace => "trace"

/-- The level with the given name; ASCII letters may be of either case. -/
def ofName? (name : String) : Option LogLevel :=
  let lower := name.toList.map Char.toLower
  Coded.members.find? (·.name.toList == lower)

end LogLevel

/-- The configured log level; `info` where none or an unknown one is named. -/
def Config.level (c : Config) : LogLevel := (c.logLevel.bind LogLevel.ofName?).getD .info

end HandsFree

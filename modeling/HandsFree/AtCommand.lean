import HandsFree.Command
import HandsFree.Text.Blank
import HandsFree.Text.Cut
import HandsFree.Text.Integer

/-! AT commands: their parts, and the commands of a headset that they carry.

    A command arrives as `AT+NAME`, `+NAME`, `ATNAME` or plain `NAME`, followed by `=?` for a test, by
    `?` for a query or by `=` and arguments for a setting. The delimiters are looked for in this order,
    so that `A=1,b?` is a query of `A=1,b`. -/

namespace HandsFree

/-- What an AT command does with its name. -/
inductive AtKind
  | set
  | query
  | test
  | execute
  deriving DecidableEq

instance : Coded AtKind where
  members := [.set, .query, .test, .execute]
  mem_members a := by cases a <;> decide
  nodup_members := by decide

/-- What stands between the name and the arguments. -/
def AtKind.delimiter : AtKind → List Char
  | set => ['=']
  | query => ['?']
  | test => ['=', '?']
  | execute => []

structure AtCommand where
  /-- The whole text as received. -/
  raw : String
  kind : AtKind
  name : String
  /-- The arguments in order, each without white space at its ends; none if no text follows the name. -/
  args : Option (List String)
  deriving DecidableEq

namespace AtCommand

/-- The text without white space at its ends and without a leading `AT` and `+`. -/
def body (text : List Char) : List Char :=
  Text.dropStart ['+'] (Text.dropStart ['A', 'T'] (Text.trim text))

structure Parts where
  kind : AtKind
  name : List Char
  arguments : List Char
  deriving DecidableEq

/-- Cuts a command of the given kind at the first place where the delimiter of that kind stands. -/
def Parts.ofKind? (kind : AtKind) (b : List Char) : Option Parts :=
  (Text.cutAt? kind.delimiter b).map fun (name, arguments) => ⟨kind, name, arguments⟩

/-- Cuts a command. Without a delimiter it is executed and has no arguments. -/
def Parts.ofBody (b : List Char) : Parts :=
  (ofKind? .test b <|> ofKind? .query b <|> ofKind? .set b).getD ⟨.execute, b, []⟩

/-- The arguments in a text, parted by commas. -/
def arguments (a : List Char) : Option (List String) :=
  if a.isEmpty then none
  else some ((a.splitOn ',').map fun arg => String.ofList (Text.trim arg))

/-- Reads a text as an AT command. Only an empty command is refused. -/
def ofText (text : String) : Except CommandError AtCommand :=
  match body text.toList with
  | [] => .error (.malformed "empty AT command")
  | b =>
    let parts := Parts.ofBody b
    .ok { raw := text, kind := parts.kind, name := String.ofList parts.name
          args := arguments parts.arguments }

/-- The argument of a command that has exactly one. -/
def onlyArgument? (a : AtCommand) : Option (List Char) :=
  match a.args with
  | some [arg] => some arg.toList
  | _ => none

/-- The tone to play: the code point of an argument of one character. -/
def tone? (a : AtCommand) : Option Int32 :=
  match a.onlyArgument? with
  | some [c] => some (Int32.ofNat c.toNat)
  | _ => none

def holdCode? (a : AtCommand) : Option Int32 := a.onlyArgument?.bind Text.int32?

/-- The command of the headset that an AT command carries. -/
def command (a : AtCommand) : Except CommandError Command :=
  match a.name, a.kind with
  | "A", .execute => .ok .answer
  | "CHUP", .execute => .ok .hangUp
  | "CLCC", .execute => .ok .listCalls
  | "CIND", .query => .ok .phoneState
  | "COPS", .query => .ok .networkOperator
  | "CNUM", .execute => .ok .subscriberNumber
  | "VTS", .set =>
    match a.tone? with
    | some code => .ok (.sendTone code)
    | none => .error (.malformed a.raw)
  | "CHLD", .set =>
    match a.holdCode? with
    | some code => .ok (.callHold code)
    | none => .error (.malformed a.raw)
  | _, _ => .error (.unsupported a.raw)

end AtCommand

/-- Reads a text as an AT command and gives the command of the headset that it carries. -/
def Command.ofText (text : String) : Except CommandError Command := do
  (← AtCommand.ofText text).command

end HandsFree

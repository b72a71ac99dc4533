import HandsFree.Coded

/-! What a headset asks for, what it is answered, and why a request is refused. -/

namespace HandsFree

/-- The requests of a headset. -/
inductive Command
  | answer
  | hangUp
  /-- Plays the tone of the character with the given code point. -/
  | sendTone (code : Int32)
  | networkOperator
  | subscriberNumber
  | listCalls
  | phoneState
  | callHold (code : Int32)
  deriving DecidableEq

/-- The answer to a command: whether it applied to the calls, or a text. -/
inductive Response
  | status (ok : Bool)
  | text (s : String)
  deriving DecidableEq

/-- Why a request of the headset is refused. -/
inductive CommandError
  | unknownHold (code : Int32)
  | invalidTone (code : Int32)
  | malformed (text : String)
  | unsupported (text : String)
  deriving DecidableEq

namespace CommandError

def message : CommandError → String
  | unknownHold code => s!"unknown CHLD type {code}"
  | invalidTone code => s!"invalid DTMF tone {code}"
  | malformed text => s!"malformed AT command: {text}"
  | unsupported text => s!"unsupported AT command: {text}"

end CommandError

/-- The character whose tone the code asks for. Every Unicode scalar value is one. -/
def toneOfCode (code : Int32) : Except CommandError Char :=
  let n := code.toInt.toNat
  if 0 ≤ code.toInt ∧ n.isValidChar then .ok (Char.ofNat n) else .error (.invalidTone code)

end HandsFree

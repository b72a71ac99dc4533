import HandsFree.CallEvent
import HandsFree.CallHold
import HandsFree.Config.Basic
import HandsFree.Listing

/-! The telephony service of a headset.

    It looks at the calls and never changes them; the call manager does, on request. All that the service
    changes by itself is its memory of what the headset was told. That memory is forgotten whenever a
    headset comes or goes, and nothing is computed for a headset that is not there. -/

namespace HandsFree

/-- What is sent to the headset. -/
inductive Notice
  | listEntry (entry : ListEntry)
  | phoneState (state : PhoneState)
  deriving DecidableEq

inductive Output
  | request (request : Request)
  | notice (notice : Notice)
  deriving DecidableEq

structure Service where
  calls : CallTable := {}
  registry : Registry := {}
  config : Config := {}
  /-- Whether a headset is attached. -/
  headset : Bool := false
  /-- What the attached headset was told last. -/
  memory : Debounce := {}
  deriving DecidableEq

/-- What a command leads to. -/
structure Outcome where
  service : Service
  response : Response
  outputs : List Output

namespace Service

/-- A headset is attached, or the attached one goes away. -/
def attach (s : Service) (attached : Bool) : Service := { s with headset := attached, memory := {} }

def onEvent (s : Service) (e : CallEvent) : Service × List Output :=
  if s.headset then
    let told := s.memory.onEvent e s.calls
    ({ s with memory := told.2 }, (told.1.map fun p => Output.notice (.phoneState p)).toList)
  else (s, [])

/-- Tells the phone state to the attached headset, whatever it was told before. -/
def announce (s : Service) : Service × List Output :=
  if s.headset then
    ({ s with memory := .sent s.calls }, [.notice (.phoneState (PhoneState.ofCalls s.calls))])
  else (s, [])

theorem calls_announce (s : Service) : s.announce.1.calls = s.calls := by
  unfold announce
  split <;> rfl

theorem calls_onEvent (s : Service) (e : CallEvent) : (s.onEvent e).1.calls = s.calls := by
  unfold onEvent
  split <;> rfl

/-! ### Accounts -/

/-- The account that speaks for the phone: that of the foreground call, else the default account for
    telephone numbers. -/
def bestAccount? (s : Service) : Option Account :=
  ((s.calls.foregroundCall?.bind (·.account)).bind s.registry.account?) <|>
    ((s.registry.default? telephoneScheme).bind s.registry.account?)

/-- The label of the best account, else the configured operator. -/
def networkOperator (s : Service) : String :=
  (s.bestAccount?.bind (·.label)).getD s.config.networkOperator

/-- The number of the best account, else the configured one. -/
def subscriberNumber (s : Service) : String :=
  let number? := (s.bestAccount?.bind (·.address)).map Address.schemeSpecificPart
  (number?.filter (· != "")).getD s.config.subscriberNumber

/-! ### Commands -/

/-- Answers the ringing call. -/
def answer (s : Service) : Outcome :=
  match s.calls.ringing? with
  | some call => ⟨s, .status true, [.request (.answer call s.config.videoState)]⟩
  | none => ⟨s, .status false, []⟩

/-- Disconnects the foreground call. -/
def hangUp (s : Service) : Outcome :=
  match s.calls.foreground? with
  | some call => ⟨s, .status true, [.request (.disconnect call)]⟩
  | none => ⟨s, .status false, []⟩

/-- Starts a tone on the foreground call and stops it at once. -/
def sendTone (s : Service) (code : Int32) : Outcome :=
  match s.calls.foreground? with
  | none => ⟨s, .status false, []⟩
  | some call =>
    match toneOfCode code with
    | .error _ => ⟨s, .status false, []⟩
    | .ok tone => ⟨s, .status true, [.request (.playTone call tone), .request (.stopTone call)]⟩

/-- Carries out what a hold command comes to, if it applies to the calls. After a swap of legs the headset hears
    the phone state at once. -/
def callHold (s : Service) (code : Int32) : Outcome :=
  match CallHold.ofCode code with
  | .error _ => ⟨s, .status false, []⟩
  | .ok command =>
    let operations := command.operations s.calls
    if operations.isEmpty then ⟨s, .status false, []⟩
    else
      let asked := operations.map fun o => Output.request (o.request s.config.videoState)
      if operations.any Operation.isSwap then
        let told := s.announce
        ⟨told.1, .status true, asked ++ told.2⟩
      else ⟨s, .status true, asked⟩

/-- Tells the calls to the attached headset, line by line. -/
def tellCalls (s : Service) : List Output :=
  if s.headset then (Listing.ofCalls s.calls).map fun e => .notice (.listEntry e) else []

def handle (s : Service) : Command → Outcome
  | .answer => s.answer
  | .hangUp => s.hangUp
  | .sendTone code => s.sendTone code
  | .networkOperator => ⟨s, .text s.networkOperator, []⟩
  | .subscriberNumber => ⟨s, .text s.subscriberNumber, []⟩
  | .listCalls => ⟨s, .status true, s.tellCalls⟩
  | .phoneState => ⟨s.announce.1, .status true, s.announce.2⟩
  | .callHold code => s.callHold code

end Service

end HandsFree

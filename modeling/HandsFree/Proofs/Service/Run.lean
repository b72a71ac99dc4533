import HandsFree.Proofs.Debounce
import HandsFree.Proofs.Service.Exits
import HandsFree.Service.Dispatch

/-! Runs of a service. The call manager may change its calls in any way between two messages: a change
    puts any table in the place of the tracked one, so inserting, erasing, linking and rewriting a record
    are all covered. A run keeps what happened so far, the latest first.

    Apart from the coming and going of a headset, a message has one of two effects on what the headset
    knows: it hears no phone state and the service stays as it is, or it hears the phone state of the
    calls and the service remembers just that. -/

namespace HandsFree

/-- What happens to a service: its calls change, or a message is handled. -/
inductive Action
  | edit (calls : CallTable)
  | message (m : Message)

def Output.phoneState? : Output → Option PhoneState
  | .notice (.phoneState p) => some p
  | _ => none

/-- The phone states among what leaves a service, in order. -/
def phoneStates (outputs : List Output) : List PhoneState := outputs.filterMap Output.phoneState?

/-- One action of a run, with the service as it was before and what left it. -/
structure Moment where
  before : Service
  action : Action
  outputs : List Output

structure Run where
  service : Service
  past : List Moment

namespace Run

/-- A new service: no headset is attached, and nothing was told. -/
def start (calls : CallTable) (registry : Registry) (config : Config) : Run :=
  ⟨{ calls, registry, config }, []⟩

def step (r : Run) : Action → Run
  | .edit calls => ⟨{ r.service with calls }, ⟨r.service, .edit calls, []⟩ :: r.past⟩
  | .message m =>
    ⟨(r.service.receive m).service, ⟨r.service, .message m, (r.service.receive m).outputs⟩ :: r.past⟩

def after (r : Run) (as : List Action) : Run := as.foldl step r

/-- What holds at the start and is kept by every step holds after every run. -/
theorem after_induction {P : Run → Prop} {r : Run} (start : P r) (step : ∀ r a, P r → P (r.step a))
    (as : List Action) : P (r.after as) := by
  induction as generalizing r with
  | nil => exact start
  | cons a as ih => exact ih (step r a start)

/-- What left the service at a moment is what the message of that moment leads to. -/
theorem outputs_of_mem_past {calls : CallTable} {registry : Registry} {config : Config} {as : List Action}
    {x : Moment} {m : Message} (hx : x ∈ ((start calls registry config).after as).past)
    (hm : x.action = .message m) : x.outputs = (x.before.receive m).outputs := by
  suffices all : ∀ x ∈ ((start calls registry config).after as).past, ∀ m, x.action = .message m →
      x.outputs = (x.before.receive m).outputs from all x hx m hm
  refine after_induction (P := fun r => ∀ x ∈ r.past, ∀ m, x.action = .message m →
    x.outputs = (x.before.receive m).outputs) ?_ (fun r a ih => ?_) as
  · intro x hx
    cases hx
  · cases a with
    | edit calls =>
      refine List.forall_mem_cons.mpr ⟨fun m hm => ?_, ih⟩
      cases hm
    | message m₀ =>
      refine List.forall_mem_cons.mpr ⟨fun m hm => ?_, ih⟩
      cases hm
      rfl

end Run

/-! ### What one message does -/

namespace Service
variable (s : Service)

theorem phoneStates_requests (rs : List Request) : phoneStates (rs.map .request) = [] := by
  simp [phoneStates, List.filterMap_map, Function.comp_def, Output.phoneState?]

theorem phoneStates_tellCalls : phoneStates s.tellCalls = [] := by
  unfold tellCalls
  split
  · simp [phoneStates, List.filterMap_map, Function.comp_def, Output.phoneState?]
  · rfl

/-- An event is told if a headset is attached, the event matters and the phone state is news. -/
theorem onEvent_of_accepts {e : CallEvent} (h : s.headset = true ∧ e.matters s.calls = true ∧
    s.memory.accepts s.calls = true) : s.onEvent e =
      ({ s with memory := .sent s.calls }, [.notice (.phoneState (PhoneState.ofCalls s.calls))]) := by
  obtain ⟨hh, htells⟩ := h
  rw [onEvent, if_pos hh, Debounce.Tells.onEvent htells]
  rfl

theorem onEvent_of_not_accepts {e : CallEvent} (h : ¬(s.headset = true ∧ e.matters s.calls = true ∧
    s.memory.accepts s.calls = true)) : s.onEvent e = (s, []) := by
  unfold onEvent
  by_cases hh : s.headset = true
  · rw [if_pos hh, Debounce.onEvent_of_not_tells fun htells => h ⟨hh, htells⟩]
    rfl
  · rw [if_neg hh]

/-- The phone state is told and remembered, or nothing happens. -/
def Heard (s : Service) (after : Service) (outputs : List Output) : Prop :=
  (after = s ∧ phoneStates outputs = []) ∨
    (s.headset = true ∧ after = { s with memory := .sent s.calls } ∧
      phoneStates outputs = [PhoneState.ofCalls s.calls])

theorem heard_onEvent (e : CallEvent) : Heard s (s.onEvent e).1 (s.onEvent e).2 := by
  by_cases h : s.headset = true ∧ e.matters s.calls = true ∧ s.memory.accepts s.calls = true
  · rw [onEvent_of_accepts s h]
    exact Or.inr ⟨h.1, rfl, rfl⟩
  · rw [onEvent_of_not_accepts s h]
    exact Or.inl ⟨rfl, rfl⟩

theorem heard_announce : Heard s s.announce.1 s.announce.2 := by
  unfold announce
  by_cases hh : s.headset = true
  · rw [if_pos hh]
    exact Or.inr ⟨hh, rfl, rfl⟩
  · rw [if_neg hh]
    exact Or.inl ⟨rfl, rfl⟩

/-- Requests are no phone states, so the headset hears what is announced besides. -/
theorem heard_of_ends {rs : List Request} {o : Outcome} (h : Ends s rs o) : Heard s o.service o.outputs := by
  cases h with
  | refused => exact Or.inl ⟨rfl, rfl⟩
  | asked => exact Or.inl ⟨rfl, phoneStates_requests rs⟩
  | swapped =>
    have hannounced : phoneStates (rs.map .request ++ s.announce.2) = phoneStates s.announce.2 := by
      rw [phoneStates, List.filterMap_append]
      exact congrArg (· ++ phoneStates s.announce.2) (phoneStates_requests rs)
    have h := heard_announce s
    unfold Heard at h ⊢
    rwa [hannounced]

theorem heard_handle (c : Command) : Heard s (s.handle c).service (s.handle c).outputs := by
  cases c with
  | answer => exact heard_of_ends s (ends_answer s)
  | hangUp => exact heard_of_ends s (ends_hangUp s)
  | sendTone code => exact heard_of_ends s (ends_sendTone s code)
  | callHold code => exact heard_of_ends s (ends_callHold s code)
  | networkOperator => exact Or.inl ⟨rfl, rfl⟩
  | subscriberNumber => exact Or.inl ⟨rfl, rfl⟩
  | listCalls => exact Or.inl ⟨rfl, phoneStates_tellCalls s⟩
  | phoneState => exact heard_announce s

theorem heard_handleText (text : String) : Heard s (s.handleText text).service (s.handleText text).outputs := by
  unfold handleText
  cases Command.ofText text with
  | ok c => exact heard_handle s c
  | error e => exact Or.inl ⟨rfl, rfl⟩

/-- Only the call manager changes the calls, so they are the same before, during and after a message. -/
theorem calls_receive (m : Message) : (s.receive m).service.calls = s.calls := by
  cases m with
  | event e => exact calls_onEvent s e
  | command c awaited => exact calls_handle s c
  | atText text awaited =>
    change (s.handleText text).service.calls = s.calls
    unfold handleText
    cases Command.ofText text with
    | ok c => exact calls_handle s c
    | error e => rfl
  | headset attached => rfl

/-- Every message but the coming and going of a headset. -/
theorem heard_receive {m : Message} (hm : ∀ b, m ≠ .headset b) :
    Heard s (s.receive m).service (s.receive m).outputs := by
  cases m with
  | event e => exact heard_onEvent s e
  | command c awaited => exact heard_handle s c
  | atText text awaited => exact heard_handleText s text
  | headset attached => exact absurd rfl (hm attached)

end Service

end HandsFree

import HandsFree.Proofs.Service.Run

/-! What a service remembers of a headset is what the headset was told. The wire of a run holds the phone
    states that the attached headset heard since it came, each with the calls of the time; in every run
    the memory is read off the end of the wire. -/

namespace HandsFree

/-- A phone state on the wire, with the calls as they were when it was sent. -/
structure Delivery where
  state : PhoneState
  calls : CallTable

def Moment.deliveries (x : Moment) : List Delivery :=
  (phoneStates x.outputs).map fun p => ⟨p, x.before.calls⟩

def Action.attached? : Action → Option Bool
  | .message (.headset attached) => some attached
  | _ => none

/-- What the headset of the moment was told since it came, in order. A change of headset starts a new
    wire. -/
def wire : List Moment → List Delivery
  | [] => []
  | x :: past => if x.action.attached?.isSome then [] else wire past ++ x.deliveries

/-- Whether there is a headset: the last change of headset decides, and at first there is none. -/
def attached (past : List Moment) : Bool := (past.findSome? (·.action.attached?)).getD false

section Cons
variable {x : Moment} {past : List Moment}

theorem wire_cons_of_none (h : x.action.attached? = none) : wire (x :: past) = wire past ++ x.deliveries := by
  rw [wire, h]
  rfl

theorem wire_cons_of_some {b : Bool} (h : x.action.attached? = some b) : wire (x :: past) = [] := by
  rw [wire, h]
  rfl

theorem wire_step_event (r : Run) (e : CallEvent) : wire (r.step (.message (.event e))).past =
    wire r.past ++ (phoneStates (r.service.onEvent e).2).map fun p => ⟨p, r.service.calls⟩ :=
  wire_cons_of_none rfl

theorem attached_cons_of_none (h : x.action.attached? = none) : attached (x :: past) = attached past := by
  rw [attached, List.findSome?_cons_of_isNone (by rw [h]; rfl)]
  rfl

theorem attached_cons_of_some {b : Bool} (h : x.action.attached? = some b) : attached (x :: past) = b := by
  rw [attached, List.findSome?_cons, h]
  rfl

end Cons

/-- The service and the wire agree on the headset and on what it heard last, nothing goes to a headset
    that is not there, and what goes out is the phone state of the calls. -/
structure InStep (r : Run) : Prop where
  headset : r.service.headset = attached r.past
  last : r.service.memory.last = (wire r.past).getLast?.map (·.state)
  held : r.service.memory.held = (wire r.past).getLast?.bind (·.calls.held?)
  silent : r.service.headset = false → wire r.past = []
  sent : ∀ x ∈ r.past, ∀ p ∈ phoneStates x.outputs,
    x.before.headset = true ∧ p = PhoneState.ofCalls x.before.calls

namespace InStep
variable {r : Run} {s' : Service} {a : Action} {outputs : List Output}

theorem start (calls : CallTable) (registry : Registry) (config : Config) :
    InStep (Run.start calls registry config) :=
  ⟨rfl, rfl, rfl, fun _ => rfl, fun _ hx => absurd hx List.not_mem_nil⟩

/-- A step that tells the headset nothing keeps the wire, so the memory has to stay too. -/
theorem untold (h : InStep r) (ha : a.attached? = none) (hheadset : s'.headset = r.service.headset)
    (hmemory : s'.memory = r.service.memory) (hout : phoneStates outputs = []) :
    InStep ⟨s', ⟨r.service, a, outputs⟩ :: r.past⟩ := by
  have hwire : wire (⟨r.service, a, outputs⟩ :: r.past) = wire r.past := by
    rw [wire_cons_of_none ha, Moment.deliveries, hout, List.map_nil, List.append_nil]
  refine ⟨?_, ?_, ?_, fun hoff => ?_, List.forall_mem_cons.mpr ⟨fun p hp => ?_, h.sent⟩⟩
  · rw [attached_cons_of_none ha, hheadset]
    exact h.headset
  · rw [hwire, hmemory]
    exact h.last
  · rw [hwire, hmemory]
    exact h.held
  · rw [hwire]
    exact h.silent (hheadset ▸ hoff)
  · rw [hout] at hp
    cases hp

theorem told (h : InStep r) (ha : a.attached? = none) (hheadset : r.service.headset = true)
    (hout : phoneStates outputs = [PhoneState.ofCalls r.service.calls]) :
    InStep ⟨{ r.service with memory := .sent r.service.calls }, ⟨r.service, a, outputs⟩ :: r.past⟩ := by
  have hwire : wire (⟨r.service, a, outputs⟩ :: r.past) =
      wire r.past ++ [⟨PhoneState.ofCalls r.service.calls, r.service.calls⟩] := by
    rw [wire_cons_of_none ha, Moment.deliveries, hout]
    rfl
  refine ⟨?_, ?_, ?_, fun hoff => ?_, List.forall_mem_cons.mpr ⟨fun p hp => ?_, h.sent⟩⟩
  · rw [attached_cons_of_none ha]
    exact h.headset
  · rw [hwire, List.getLast?_concat]
    rfl
  · rw [hwire, List.getLast?_concat]
    rfl
  · exact Bool.noConfusion (hheadset.symm.trans hoff)
  · rw [hout] at hp
    exact ⟨hheadset, List.mem_singleton.mp hp⟩

theorem attach (h : InStep r) (b : Bool) :
    InStep ⟨r.service.attach b, ⟨r.service, .message (.headset b), []⟩ :: r.past⟩ := by
  refine ⟨(attached_cons_of_some rfl).symm, ?_, ?_, fun _ => wire_cons_of_some rfl,
    List.forall_mem_cons.mpr ⟨fun p hp => ?_, h.sent⟩⟩
  · rw [wire_cons_of_some rfl]
    rfl
  · rw [wire_cons_of_some rfl]
    rfl
  · cases hp

theorem receive (h : InStep r) {m : Message} (hm : ∀ b, m ≠ .headset b) : InStep (r.step (.message m)) := by
  have ha : (Action.message m).attached? = none := by
    cases m with
    | headset b => exact absurd rfl (hm b)
    | _ => rfl
  rcases r.service.heard_receive hm with ⟨hs, hout⟩ | ⟨hheadset, hs, hout⟩
  · exact untold h ha (congrArg Service.headset hs) (congrArg Service.memory hs) hout
  · have ht := told h ha hheadset hout
    rw [← hs] at ht
    exact ht

theorem step (r : Run) (a : Action) (h : InStep r) : InStep (r.step a) := by
  cases a with
  | edit calls => exact untold h rfl rfl rfl rfl
  | message m =>
    by_cases hm : ∃ b, m = .headset b
    · obtain ⟨b, rfl⟩ := hm
      exact attach h b
    · exact receive h (not_exists.mp hm)

theorem after (calls : CallTable) (registry : Registry) (config : Config) (as : List Action) :
    InStep ((Run.start calls registry config).after as) :=
  Run.after_induction (start calls registry config) step as

end InStep

/-- In every run of a new service, whatever changes its calls and whatever it handles: the memory holds
    the last phone state that the attached headset heard since it came and the call that was on hold at
    the time, or nothing where it heard none or is gone. And each phone state ever sent went to a headset
    and was that of the calls at the time. -/
theorem memory_eq_wire (calls : CallTable) (registry : Registry) (config : Config) (as : List Action) :
    let r := (Run.start calls registry config).after as
    r.service.headset = attached r.past ∧
      r.service.memory.last = (wire r.past).getLast?.map (·.state) ∧
      r.service.memory.held = (wire r.past).getLast?.bind (·.calls.held?) ∧
      (r.service.headset = false → wire r.past = []) ∧
      ∀ x ∈ r.past, ∀ p ∈ phoneStates x.outputs,
        x.before.headset = true ∧ p = PhoneState.ofCalls x.before.calls := by
  have h : InStep ((Run.start calls registry config).after as) :=
    Run.after_induction (InStep.start calls registry config) InStep.step as
  exact ⟨h.headset, h.last, h.held, h.silent, h.sent⟩

end HandsFree

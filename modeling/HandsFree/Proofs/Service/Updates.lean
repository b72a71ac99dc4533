import HandsFree.Proofs.Debounce
import HandsFree.Proofs.Service.Wire

/-! What events and commands bring to the headset, over whole runs. An event that matters leaves the headset
    with the phone state of calls at rest, however many updates were held back before, and so does a query
    or a swap of legs for any calls. What an event tells is the phone state of calls at rest, and news to
    the headset: its first phone state, another one than the last, or one with another call on hold. -/

namespace HandsFree

/-- The command that a message carries, spelled out or as text. -/
def Message.command? : Message → Option Command
  | .command c _ => some c
  | .atText text _ => (Command.ofText text).toOption
  | .event _ | .headset _ => none

/-- The last phone state that the headset heard since it came is that of the calls. -/
def Run.UpToDate (r : Run) : Prop :=
  (wire r.past).getLast?.map (·.state) = some (PhoneState.ofCalls r.service.calls)

/-- The phone state of `t` is the first one on the wire, or differs from the last one there, or another
    call is on hold than at that time and the one of that time is no leg of the active conference. -/
def NewsTo (w : List Delivery) (t : CallTable) : Prop :=
  ∀ d, w.getLast? = some d → d.state ≠ PhoneState.ofCalls t ∨
    (t.held? ≠ d.calls.held? ∧ ∀ id, d.calls.held? = some id → ¬t.IsActiveLeg id)

/-! ### What the service remembers -/

namespace Service
variable {s : Service}

theorem last_onEvent {e : CallEvent} (hh : s.headset = true) (he : e.matters s.calls = true)
    (ht : s.calls.AtRest) : (s.onEvent e).1.memory.last = some (PhoneState.ofCalls s.calls) := by
  rw [onEvent, if_pos hh]
  change (s.memory.onEvent e s.calls).2.last = _
  rw [Debounce.onEvent, if_pos he]
  exact s.memory.last_update ht

theorem last_announce (hh : s.headset = true) :
    s.announce.1.memory.last = some (PhoneState.ofCalls s.calls) := by
  rw [announce, if_pos hh]
  rfl

/-- A hold command that comes to a swap leaves the phone state behind. -/
theorem last_callHold {code : Int32} {hold : CallHold} {id : CallId} (hh : s.headset = true)
    (hcode : CallHold.ofCode code = .ok hold) (hswap : Operation.swap id ∈ hold.operations s.calls) :
    (s.callHold code).service.memory.last = some (PhoneState.ofCalls s.calls) := by
  rw [(ends_callHold s code).eq_of_swap ((swap_mem_requests_iff hcode).mpr hswap)]
  exact last_announce hh

theorem service_receive_of_command? {m : Message} {c : Command} (hm : m.command? = some c) :
    (s.receive m).service = (s.handle c).service := by
  cases m with
  | command c' awaited =>
    obtain rfl := Option.some.inj hm
    rfl
  | atText text awaited =>
    change (s.handleText text).service = _
    rw [Message.command?] at hm
    rw [handleText]
    cases ht : Command.ofText text with
    | ok c' =>
      rw [ht] at hm
      obtain rfl := Option.some.inj hm
      rfl
    | error e =>
      rw [ht] at hm
      cases hm
  | event e => cases hm
  | headset attached => cases hm

end Service

/-! ### What the headset knows -/

namespace InStep
variable {r : Run} {m : Message} {t : CallTable}

theorem upToDate (h : InStep r) (hlast : (r.service.receive m).service.memory.last =
    some (PhoneState.ofCalls r.service.calls)) : (r.step (.message m)).UpToDate := by
  have hstep := (InStep.step r (.message m) h).last
  rw [Run.UpToDate, ← hstep]
  change (r.service.receive m).service.memory.last =
    some (PhoneState.ofCalls (r.service.receive m).service.calls)
  rw [Service.calls_receive, hlast]

/-- The memory takes for news what is news to the headset. -/
theorem isNews_iff (h : InStep r) : r.service.memory.isNews t = true ↔ NewsTo (wire r.past) t := by
  rw [Debounce.isNews_iff, h.last, h.held]
  cases hd : (wire r.past).getLast? with
  | none => simp [NewsTo, hd]
  | some d => simp [NewsTo, hd]

end InStep

/-- In every run with a headset attached: the headset is up to date after each event that matters, if no
    swap is in flight and the links are settled, whatever was held back before; and after each query and
    each hold command that comes to a swap, whatever the calls. -/
theorem headset_upToDate (calls : CallTable) (registry : Registry) (config : Config) (as : List Action) :
    let r := (Run.start calls registry config).after as
    r.service.headset = true →
      (∀ e : CallEvent, e.matters r.service.calls = true → r.service.calls.heldCount ≠ 2 →
        r.service.calls.isSettled = true → (r.step (.message (.event e))).UpToDate) ∧
      (∀ m : Message, m.command? = some .phoneState → (r.step (.message m)).UpToDate) ∧
      (∀ (m : Message) (code : Int32) (hold : CallHold) (id : CallId), m.command? = some (.callHold code) →
        CallHold.ofCode code = .ok hold → Operation.swap id ∈ hold.operations r.service.calls →
          (r.step (.message m)).UpToDate) := by
  intro r hh
  have h : InStep r := InStep.after calls registry config as
  refine ⟨?_, ?_, ?_⟩
  · intro e he hcount hsettled
    exact h.upToDate (Service.last_onEvent hh he ⟨hcount, hsettled⟩)
  · intro m hm
    apply h.upToDate
    rw [Service.service_receive_of_command? hm]
    exact Service.last_announce hh
  · intro m code hold id hm hcode hswap
    apply h.upToDate
    rw [Service.service_receive_of_command? hm]
    exact Service.last_callHold hh hcode hswap

def heldPair : CallTable := ⟨[{ id := ⟨1⟩, state := .onHold }, { id := ⟨2⟩, state := .onHold }]⟩

/-- The two calls as legs of a conference that can swap them. -/
def swapPair : CallTable :=
  ⟨[{ id := ⟨3⟩, state := .active, capabilities := { swap := true }, isConference := true, children := [⟨1⟩, ⟨2⟩] },
    { id := ⟨1⟩, state := .active, parent := some ⟨3⟩ }, { id := ⟨2⟩, state := .onHold, parent := some ⟨3⟩ }]⟩

/-- A headset comes, hears nothing of two calls on hold, and then they are joined. -/
def pairJoined : List Action :=
  [.message (.headset true), .edit heldPair, .message (.event (.added ⟨2⟩)), .edit swapPair]

theorem headset_upToDate_pairJoined :
    let r := (Run.start {} {} {}).after pairJoined
    r.service.headset = true ∧ wire r.past = [] ∧
      (r.step (.message (.event (.conferenceChanged ⟨3⟩)))).UpToDate ∧
      (r.step (.message (.command .phoneState true))).UpToDate ∧
      (r.step (.message (.command (.callHold 2) true))).UpToDate := by
  intro r
  have hh : r.service.headset = true := rfl
  have hswap : Operation.swap ⟨3⟩ ∈ CallHold.holdActive.operations r.service.calls := by decide
  obtain ⟨hevent, hquery, hhold⟩ := headset_upToDate {} {} {} pairJoined hh
  exact ⟨hh, rfl, hevent _ (by decide) (by decide) (by decide), hquery _ rfl, hhold _ 2 .holdActive ⟨3⟩ rfl rfl hswap⟩

/-- In every run, an event changes nothing and nothing leaves the service, or a single phone state leaves
    it: then the calls are at rest, and the phone state is the first one since the headset came, or differs
    from the one before, or another call is on hold than when that was sent. -/
theorem event_tells_news (calls : CallTable) (registry : Registry) (config : Config) (as : List Action)
    (e : CallEvent) :
    let r := (Run.start calls registry config).after as
    let told := r.service.receive (.event e)
    (told.service = r.service ∧ told.outputs = []) ∨
      ∃ p, told.outputs = [.notice (.phoneState p)] ∧
        r.service.calls.isSettled = true ∧ r.service.calls.heldCount ≠ 2 ∧
        (wire r.past = [] ∨ ∃ d, (wire r.past).getLast? = some d ∧
          (p ≠ d.state ∨ r.service.calls.held? ≠ d.calls.held?)) := by
  intro r told
  have h : InStep r := InStep.after calls registry config as
  have htold : told.service = (r.service.onEvent e).1 ∧ told.outputs = (r.service.onEvent e).2 := ⟨rfl, rfl⟩
  rw [htold.1, htold.2]
  by_cases hacc : r.service.headset = true ∧ e.matters r.service.calls = true ∧
      r.service.memory.accepts r.service.calls = true
  · rw [Service.onEvent_of_accepts _ hacc]
    obtain ⟨hcount, hsettled, hnews⟩ := (Debounce.accepts_iff _).mp hacc.2.2
    rw [h.isNews_iff] at hnews
    refine Or.inr ⟨_, rfl, hsettled, hcount, ?_⟩
    cases hd : (wire r.past).getLast? with
    | none => exact Or.inl (List.getLast?_eq_none_iff.mp hd)
    | some d =>
      refine Or.inr ⟨d, rfl, ?_⟩
      rcases hnews d hd with hstate | ⟨hheld, -⟩
      · exact Or.inl hstate.symm
      · exact Or.inr hheld
  · rw [Service.onEvent_of_not_accepts _ hacc]
    exact Or.inl ⟨rfl, rfl⟩

end HandsFree

import HandsFree.Service.Dispatch
import Mathlib.Data.List.Induction

/-! The queue of a service, beside the calls that it stands for. A message comes to a call of one entry point,
    and handling a row of messages comes to the calls in a row: the same service, the same outputs in the same
    order, and to every reply that is still awaited the answer of its own call.

    While the loop of the queue runs, messages arrive and senders go away between any two of its turns. That
    decides which replies are awaited and nothing else: at every moment the loop has handled the first arrivals
    in a row, and the others wait in order. It handles one more of them each time that it takes a message. -/

namespace HandsFree

/-! ### Direct calls -/

/-- The entry points of a service, each with what it is called with. A request without a command calls none of
    them; it has failed already. -/
inductive Entry
  | event (e : CallEvent)
  | command (c : Command)
  | noCommand
  | headset (attached : Bool)

/-- A service called directly, with the answers and outputs of all calls so far. Only requests are answered. -/
structure Session where
  service : Service
  answers : List (Option Response) := []
  outputs : List Output := []

namespace Session

def call (x : Session) : Entry → Session
  | .event e => ⟨(x.service.onEvent e).1, x.answers ++ [none], x.outputs ++ (x.service.onEvent e).2⟩
  | .command c =>
    let o := x.service.handle c
    ⟨o.service, x.answers ++ [some o.response], x.outputs ++ o.outputs⟩
  | .noCommand => { x with answers := x.answers ++ [some (.status false)] }
  | .headset attached => { x with service := x.service.attach attached, answers := x.answers ++ [none] }

/-- Calls one after the other, from the given service on. -/
def direct (s : Service) (es : List Entry) : Session := es.foldl call { service := s }

theorem direct_append_singleton (s : Service) (es : List Entry) (e : Entry) :
    direct s (es ++ [e]) = (direct s es).call e := by
  rw [direct, List.foldl_append]
  rfl

end Session

namespace Message

/-- The call that the message stands for. -/
def entry : Message → Entry
  | event e => .event e
  | command c _ => .command c
  | atText text _ =>
    match Command.ofText text with
    | .ok c => .command c
    | .error _ => .noCommand
  | headset attached => .headset attached

/-- Whether somebody awaits a reply. -/
def awaited : Message → Bool
  | command _ awaited | atText _ awaited => awaited
  | event _ | headset _ => false

/-- The sender goes away before the reply. -/
def giveUp : Message → Message
  | command c _ => command c false
  | atText text _ => atText text false
  | m => m

/-- What is left of an answer: nothing, if nobody awaits it. -/
def reply (m : Message) (answer : Option Response) : Option Response := if m.awaited then answer else none

theorem entry_giveUp (m : Message) : m.giveUp.entry = m.entry := by cases m <;> rfl

end Message

/-! ### A row of messages -/

namespace Session
variable (x : Session) (m : Message)

/-- A call does what handling its message does, and a message that awaits a reply has the answer of the call. -/
theorem call_entry : ∃ answer,
    x.call m.entry = ⟨(x.service.receive m).service, x.answers ++ [answer],
      x.outputs ++ (x.service.receive m).outputs⟩ ∧
    (x.service.receive m).replies = [m.reply answer] ∧ (m.reply answer).isSome = m.awaited := by
  have hrequest : ∀ (r : Response) (awaited : Bool), (if awaited then some r else none).isSome = awaited := by
    intro r awaited
    cases awaited <;> rfl
  cases m with
  | event e => exact ⟨none, rfl, rfl, rfl⟩
  | command c awaited => exact ⟨some (x.service.handle c).response, rfl, rfl, hrequest _ awaited⟩
  | atText text awaited =>
    cases ht : Command.ofText text with
    | ok c =>
      have hentry : (Message.atText text awaited).entry = .command c := by simp only [Message.entry, ht]
      have hreceive : x.service.receive (.atText text awaited) = Service.deliver (x.service.handle c) awaited := by
        simp only [Service.receive, Service.handleText, ht]
      rw [hentry, hreceive]
      exact ⟨some (x.service.handle c).response, rfl, rfl, hrequest _ awaited⟩
    | error e =>
      have hentry : (Message.atText text awaited).entry = .noCommand := by simp only [Message.entry, ht]
      have hreceive : x.service.receive (.atText text awaited) =
          Service.deliver ⟨x.service, .status false, []⟩ awaited := by
        simp only [Service.receive, Service.handleText, ht]
      rw [hentry, hreceive]
      refine ⟨some (.status false), ?_, rfl, hrequest _ awaited⟩
      simp only [call, Service.deliver, List.append_nil]
  | headset attached =>
    refine ⟨none, ?_, rfl, rfl⟩
    simp only [Message.entry, call, Service.receive, List.append_nil]

end Session

namespace Service
variable (s : Service)

theorem dispatch_append_singleton (ms : List Message) (m : Message) :
    s.dispatch (ms ++ [m]) =
      let first := s.dispatch ms
      let last := first.service.receive m
      ⟨last.service, first.replies ++ last.replies, first.outputs ++ last.outputs⟩ := by
  simp only [dispatch_append, dispatch, List.append_nil]

/-- What a row of messages leads to, by direct calls. -/
structure DispatchedAs (ms : List Message) (d : Dispatched) (x : Session) : Prop where
  service : d.service = x.service
  outputs : d.outputs = x.outputs
  replies : d.replies = List.zipWith Message.reply ms x.answers
  answered : d.replies.map Option.isSome = ms.map Message.awaited
  length : x.answers.length = ms.length

theorem dispatchedAs (ms : List Message) :
    DispatchedAs ms (s.dispatch ms) (Session.direct s (ms.map Message.entry)) := by
  induction ms using List.reverseRecOn with
  | nil => exact ⟨rfl, rfl, rfl, rfl, rfl⟩
  | append_singleton ms m ih =>
    obtain ⟨answer, hcall, hreply, hawaited⟩ := (Session.direct s (ms.map Message.entry)).call_entry m
    rw [List.map_append, List.map_singleton, Session.direct_append_singleton, hcall, dispatch_append_singleton]
    dsimp only
    rw [ih.service, hreply]
    refine ⟨rfl, ?_, ?_, ?_, ?_⟩
    · rw [ih.outputs]
    · rw [List.zipWith_append ih.length.symm, ih.replies]
      rfl
    · rw [List.map_append, List.map_append, ih.answered]
      simp only [List.map_cons, List.map_nil, hawaited]
    · simp only [List.length_append, ih.length, List.length_singleton]

end Service

/-! ### The loop -/

/-- What happens while the loop runs: a message joins the end of the queue, the sender of a waiting message
    goes away, or the loop takes the first message and handles it. -/
inductive Turn
  | arrive (m : Message)
  | giveUp (place : Nat)
  | take

def Turn.arrival? : Turn → Option Message
  | arrive m => some m
  | giveUp _ | take => none

/-- The messages that arrive, in order. -/
def arrivals (turns : List Turn) : List Message := turns.filterMap Turn.arrival?

structure Loop where
  service : Service
  /-- The messages that wait. -/
  queue : List Message := []
  /-- The messages handled so far, as they were when it was their turn. -/
  taken : List Message := []
  replies : List (Option Response) := []
  outputs : List Output := []

namespace Loop

def step (l : Loop) : Turn → Loop
  | .arrive m => { l with queue := l.queue ++ [m] }
  | .giveUp place => { l with queue := l.queue.modify place Message.giveUp }
  | .take =>
    match l.queue with
    | [] => l
    | m :: waiting =>
      let d := l.service.receive m
      { service := d.service, queue := waiting, taken := l.taken ++ [m], replies := l.replies ++ d.replies
        outputs := l.outputs ++ d.outputs }

def run (s : Service) (turns : List Turn) : Loop := turns.foldl step { service := s }

theorem map_entry_giveUp (ms : List Message) (place : Nat) :
    (ms.modify place Message.giveUp).map Message.entry = ms.map Message.entry := by
  induction ms generalizing place with
  | nil => cases place <;> rfl
  | cons m ms ih =>
    cases place with
    | zero => rw [List.modify_zero_cons, List.map_cons, Message.entry_giveUp, List.map_cons]
    | succ place => rw [List.modify_succ_cons, List.map_cons, ih, List.map_cons]

/-- The loop has handled some messages in a row; these and the waiting ones call for the same as the given
    messages. -/
structure InOrder (s : Service) (posted : List Message) (l : Loop) : Prop where
  handled : s.dispatch l.taken = ⟨l.service, l.replies, l.outputs⟩
  order : (l.taken ++ l.queue).map Message.entry = posted.map Message.entry

theorem InOrder.step {s : Service} {posted : List Message} {l : Loop} (h : InOrder s posted l) (turn : Turn) :
    InOrder s (posted ++ arrivals [turn]) (l.step turn) := by
  cases turn with
  | arrive m =>
    refine ⟨h.handled, ?_⟩
    change (l.taken ++ (l.queue ++ [m])).map Message.entry = (posted ++ [m]).map Message.entry
    rw [← List.append_assoc, List.map_append, h.order, List.map_append]
  | giveUp place =>
    refine ⟨h.handled, ?_⟩
    change (l.taken ++ l.queue.modify place Message.giveUp).map Message.entry = (posted ++ []).map Message.entry
    rw [List.map_append, map_entry_giveUp, ← List.map_append, h.order, List.append_nil]
  | take =>
    change InOrder s (posted ++ []) (l.step .take)
    rw [List.append_nil]
    cases hq : l.queue with
    | nil => simpa only [Loop.step, hq] using h
    | cons m waiting =>
      have horder := h.order
      rw [hq] at horder
      simp only [Loop.step, hq]
      refine ⟨?_, ?_⟩
      · simp only [Service.dispatch_append_singleton, h.handled]
      · rwa [List.append_assoc, List.singleton_append]

theorem inOrder_run (s : Service) (turns : List Turn) : InOrder s (arrivals turns) (run s turns) := by
  induction turns using List.reverseRecOn with
  | nil => exact ⟨rfl, rfl⟩
  | append_singleton turns turn ih =>
    rw [arrivals, List.filterMap_append, run, List.foldl_append]
    exact ih.step turn

theorem step_take {l : Loop} {m : Message} {waiting : List Message} (h : l.queue = m :: waiting) :
    (l.step .take).taken = l.taken ++ [m] ∧ (l.step .take).queue = waiting := by
  simp only [step, h, and_self]

/-- As often as the loop takes a message, so many of those that wait are handled. -/
theorem foldl_take (l : Loop) (n : Nat) :
    ((List.replicate n Turn.take).foldl step l).taken = l.taken ++ l.queue.take n ∧
    ((List.replicate n Turn.take).foldl step l).queue = l.queue.drop n := by
  induction n generalizing l with
  | zero => exact ⟨(List.append_nil l.taken).symm, rfl⟩
  | succ n ih =>
    obtain ⟨htaken, hqueue⟩ := ih (l.step .take)
    rw [List.replicate_succ, List.foldl_cons, htaken, hqueue]
    cases hq : l.queue with
    | nil =>
      have hstay : l.step .take = l := by simp only [step, hq]
      rw [hstay, hq, List.take_nil, List.take_nil, List.drop_nil, List.drop_nil]
      exact ⟨rfl, rfl⟩
    | cons m waiting =>
      obtain ⟨hfirst, hrest⟩ := step_take hq
      rw [hfirst, hrest, List.take_succ_cons, List.drop_succ_cons, List.append_assoc, List.singleton_append]
      exact ⟨rfl, rfl⟩

end Loop

/-- Handling a row of messages is calling the service directly, one call after the other: the service and the
    outputs are the same, every awaited reply is the answer of its own call and no other reply arrives, and a
    row may be cut anywhere. The loop of the queue does just that with the messages in the order of their
    arrival, whenever they arrive and whenever senders go away, and each time that it takes a message it handles
    the next one that waits, until none is left. -/
theorem dispatch_eq_direct (s : Service) :
    (∀ ms : List Message,
      let d := s.dispatch ms
      let x := Session.direct s (ms.map Message.entry)
      d.service = x.service ∧ d.outputs = x.outputs ∧ d.replies = List.zipWith Message.reply ms x.answers ∧
      d.replies.map Option.isSome = ms.map Message.awaited) ∧
    (∀ xs ys : List Message,
      let first := s.dispatch xs
      let later := first.service.dispatch ys
      s.dispatch (xs ++ ys) = ⟨later.service, first.replies ++ later.replies, first.outputs ++ later.outputs⟩) ∧
    ∀ turns : List Turn,
      let l := Loop.run s turns
      s.dispatch l.taken = ⟨l.service, l.replies, l.outputs⟩ ∧
      (l.taken ++ l.queue).map Message.entry = (arrivals turns).map Message.entry ∧
      ∀ n,
        let later := Loop.run s (turns ++ List.replicate n .take)
        later.taken = l.taken ++ l.queue.take n ∧ later.queue = l.queue.drop n := by
  refine ⟨fun ms => ?_, s.dispatch_append, fun turns => ?_⟩
  · have h := s.dispatchedAs ms
    exact ⟨h.service, h.outputs, h.replies, h.answered⟩
  · have h := Loop.inOrder_run s turns
    refine ⟨h.handled, h.order, fun n => ?_⟩
    dsimp only
    rw [Loop.run, List.foldl_append]
    exact Loop.foldl_take _ n

end HandsFree

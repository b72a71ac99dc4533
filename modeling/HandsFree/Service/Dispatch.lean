import HandsFree.AtCommand
import HandsFree.Service.Basic

/-! The queue of a service: messages are handled one after the other, each wholly before the next. -/

namespace HandsFree

/-- What reaches the service. The sender of a command may have gone away by the time of the reply, and
    then no reply is awaited any more. -/
inductive Message
  | event (e : CallEvent)
  | command (c : Command) (awaited : Bool)
  | atText (text : String) (awaited : Bool)
  | headset (attached : Bool)

/-- What a row of messages leads to. There is one place for a reply to every message, in order. -/
structure Dispatched where
  service : Service
  replies : List (Option Response) := []
  outputs : List Output := []

namespace Service

/-- Handles an AT text. One that carries no command answers with a failed status and does nothing. -/
def handleText (s : Service) (text : String) : Outcome :=
  match Command.ofText text with
  | .ok c => s.handle c
  | .error _ => ⟨s, .status false, []⟩

/-- What an outcome leads to if its reply is awaited, or not. -/
def deliver (o : Outcome) (awaited : Bool) : Dispatched :=
  ⟨o.service, [if awaited then some o.response else none], o.outputs⟩

def receive (s : Service) : Message → Dispatched
  | .event e => ⟨(s.onEvent e).1, [none], (s.onEvent e).2⟩
  | .command c awaited => deliver (s.handle c) awaited
  | .atText text awaited => deliver (s.handleText text) awaited
  | .headset attached => ⟨s.attach attached, [none], []⟩

def dispatch (s : Service) : List Message → Dispatched
  | [] => ⟨s, [], []⟩
  | m :: ms =>
    let first := s.receive m
    let later := first.service.dispatch ms
    ⟨later.service, first.replies ++ later.replies, first.outputs ++ later.outputs⟩

/-- Messages in two rows, one after the other. -/
theorem dispatch_append (s : Service) (xs ys : List Message) :
    s.dispatch (xs ++ ys) =
      let first := s.dispatch xs
      let later := first.service.dispatch ys
      ⟨later.service, first.replies ++ later.replies, first.outputs ++ later.outputs⟩ := by
  induction xs generalizing s with
  | nil => rfl
  | cons m xs ih => simp only [List.cons_append, dispatch, ih, List.append_assoc]

end Service

end HandsFree

import HandsFree.Proofs.Service.Exits
import HandsFree.Service.Dispatch

/-! What a failed command leaves behind: nothing. A command fails exactly if it does not apply to the calls, and
    then it has no effect of any kind. One that acts on calls succeeds exactly if the call manager is asked for
    something. An AT text without a command fails too, and in a row of messages it is as good as absent but for
    its reply. -/

namespace HandsFree
namespace Service
variable {s : Service} {c : Command}

/-! ### Answers -/

/-- The command finds what it needs: a call to act on, a tone for its code, operations for its hold command.
    What only asks for news needs nothing. -/
def Applies (s : Service) : Command → Prop
  | .answer => ∃ call, s.calls.ringing? = some call
  | .hangUp => ∃ call, s.calls.foreground? = some call
  | .sendTone code => (∃ call, s.calls.foreground? = some call) ∧ ∃ tone, toneOfCode code = .ok tone
  | .callHold code => ∃ hold, CallHold.ofCode code = .ok hold ∧ hold.operations s.calls ≠ []
  | .networkOperator | .subscriberNumber | .listCalls | .phoneState => True

theorem requests_eq_nil_iff (h : c.actsOnCalls = true) : s.requests c = [] ↔ ¬s.Applies c := by
  cases c with
  | answer =>
    simp only [requests, Applies]
    cases s.calls.ringing? <;> simp
  | hangUp =>
    simp only [requests, Applies]
    cases s.calls.foreground? <;> simp
  | sendTone code =>
    simp only [requests, Applies]
    cases s.calls.foreground? <;> cases toneOfCode code <;> simp
  | callHold code =>
    simp only [requests, Applies]
    cases CallHold.ofCode code <;> simp
  | networkOperator => cases h
  | subscriberNumber => cases h
  | listCalls => cases h
  | phoneState => cases h

/-- A command that does not act on calls never fails. -/
theorem actsOnCalls_of_failed (h : (s.handle c).response = .status false) : c.actsOnCalls = true := by
  cases c with
  | answer => rfl
  | hangUp => rfl
  | sendTone => rfl
  | callHold => rfl
  | networkOperator => cases h
  | subscriberNumber => cases h
  | listCalls => cases h
  | phoneState => cases h

theorem handle_of_failed (h : (s.handle c).response = .status false) : s.handle c = ⟨s, .status false, []⟩ :=
  (ends_handle (actsOnCalls_of_failed h)).eq_of_failed h

theorem failed_iff (s : Service) (c : Command) : (s.handle c).response = .status false ↔ ¬s.Applies c := by
  by_cases hacts : c.actsOnCalls = true
  · rw [(ends_handle hacts).failed_iff, requests_eq_nil_iff hacts]
  · refine iff_of_false (fun h => hacts (actsOnCalls_of_failed h)) fun hnot => hnot ?_
    cases c with
    | answer => exact absurd rfl hacts
    | hangUp => exact absurd rfl hacts
    | sendTone => exact absurd rfl hacts
    | callHold => exact absurd rfl hacts
    | _ => exact trivial

/-! ### Texts without a command -/

theorem receive_atText_of_error {text : String} {e : CommandError} (h : Command.ofText text = .error e)
    (s : Service) (awaited : Bool) :
    s.receive (.atText text awaited) = ⟨s, [if awaited then some (.status false) else none], []⟩ := by
  rw [receive, handleText, h]
  rfl

/-- In a row of messages such a text has its reply, and all else is as without it. -/
theorem dispatch_of_error {text : String} {e : CommandError} (h : Command.ofText text = .error e)
    (s : Service) (awaited : Bool) (earlier later : List Message) :
    let rest := s.dispatch (earlier ++ later)
    s.dispatch (earlier ++ .atText text awaited :: later) =
      ⟨rest.service, (s.dispatch earlier).replies ++ (if awaited then some (.status false) else none) ::
        ((s.dispatch earlier).service.dispatch later).replies, rest.outputs⟩ := by
  simp only [dispatch_append, dispatch, receive_atText_of_error h, List.nil_append, List.singleton_append]

/-- A failed command has no effect: nothing is asked of the call manager, nothing is told to the headset and
    the service stays as it is. A command fails if and only if it does not apply to the calls, and one that
    acts on calls succeeds if and only if the call manager is asked for something. And a text that carries no
    command fails without any effect, wherever it stands among other messages. -/
theorem status_exact (s : Service) :
    (∀ c, (s.handle c).response = .status false → (s.handle c).service = s ∧ (s.handle c).outputs = []) ∧
    (∀ c : Command, c.actsOnCalls = true →
      ((s.handle c).response = .status true ↔ requested (s.handle c).outputs ≠ [])) ∧
    (∀ c, (s.handle c).response = .status false ↔ ¬s.Applies c) ∧
    ∀ text e, Command.ofText text = .error e → ∀ (awaited : Bool) (earlier later : List Message),
      let row := s.dispatch (earlier ++ .atText text awaited :: later)
      let rest := s.dispatch (earlier ++ later)
      row.service = rest.service ∧ row.outputs = rest.outputs ∧
      row.replies = (s.dispatch earlier).replies ++ (if awaited then some (.status false) else none) ::
        ((s.dispatch earlier).service.dispatch later).replies := by
  refine ⟨fun c h => ?_, fun c h => ?_, s.failed_iff, fun text e h awaited earlier later => ?_⟩
  · rw [handle_of_failed h]
    exact ⟨rfl, rfl⟩
  · rw [requested_handle, (ends_handle h).succeeded_iff]
  · rw [dispatch_of_error h]
    exact ⟨rfl, rfl, rfl⟩

/-- A headset is attached, and the one call can be neither held nor merged. -/
def oneCall : Service :=
  { calls := ⟨[{ id := ⟨1⟩, state := .active }]⟩, headset := true }

theorem status_exact_oneCall :
    (oneCall.handle (.callHold 2)).response = .status false ∧ (oneCall.handle (.callHold 2)).outputs = [] ∧
    ¬oneCall.Applies (.callHold 2) ∧ (oneCall.handle (.sendTone (-1))).service = oneCall ∧
    requested (oneCall.handle (.callHold 1)).outputs ≠ [] ∧
    Command.ofText "AT+CHLD=2x" = .error (.malformed "AT+CHLD=2x") ∧
    (oneCall.dispatch [.atText "AT+CHLD=2x" true, .command .hangUp true]).outputs =
      (oneCall.dispatch [.command .hangUp true]).outputs := by
  obtain ⟨hfailed, hasked, happlies, htext⟩ := status_exact oneCall
  have hhold : (oneCall.handle (.callHold 2)).response = .status false := by decide
  have htone : (oneCall.handle (.sendTone (-1))).response = .status false := by decide
  have hrelease : (oneCall.handle (.callHold 1)).response = .status true := by decide
  have hbad : Command.ofText "AT+CHLD=2x" = .error (.malformed "AT+CHLD=2x") := by rfl
  exact ⟨hhold, (hfailed _ hhold).2, (happlies _).mp hhold, (hfailed _ htone).1, (hasked (.callHold 1) rfl).mp hrelease, hbad,
    (htext _ _ hbad true [] [.command .hangUp true]).2.1⟩

end Service
end HandsFree

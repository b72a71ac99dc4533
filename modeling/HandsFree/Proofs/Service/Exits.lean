import HandsFree.Service.Basic

/-! How the commands that act on calls end. Answering, hanging up, playing a tone and holding look for their calls
    in ways of their own, and each of them turns back at other places. In common they have that a command which
    turns back has done nothing so far, that one which goes through has asked the call manager for something, and
    that of all requests only a swap of legs is told to the headset. -/

namespace HandsFree

def Output.request? : Output → Option Request
  | .request r => some r
  | .notice _ => none

/-- What reaches the call manager, in order. -/
def requested (outputs : List Output) : List Request := outputs.filterMap Output.request?

/-- The commands that ask the call manager to do something. -/
def Command.actsOnCalls : Command → Bool
  | .answer | .hangUp | .sendTone _ | .callHold _ => true
  | .networkOperator | .subscriberNumber | .listCalls | .phoneState => false

namespace Operation
variable {o : Operation} {id : CallId}

theorem isSwap_iff : o.isSwap = true ↔ ∃ id, o = .swap id := by
  cases o <;> simp [isSwap]

/-- A swap of legs is asked for by its own request only. -/
theorem request_eq_swap_iff {video : VideoState} : o.request video = .swap id ↔ o = .swap id := by
  cases o <;> simp [request]

end Operation

namespace Service
variable {s : Service} {c : Command} {code : Int32} {hold : CallHold} {id : CallId} {rs : List Request} {o : Outcome}

/-! ### Requests -/

/-- What the call manager is asked to do for a command. No requests means that the command does not apply
    to the calls, or asks for something else. -/
def requests (s : Service) : Command → List Request
  | .answer => (s.calls.ringing?.map fun call => .answer call s.config.videoState).toList
  | .hangUp => (s.calls.foreground?.map .disconnect).toList
  | .sendTone code =>
    match s.calls.foreground?, toneOfCode code with
    | some call, .ok tone => [.playTone call tone, .stopTone call]
    | _, _ => []
  | .callHold code =>
    match CallHold.ofCode code with
    | .ok command => (command.operations s.calls).map (·.request s.config.videoState)
    | .error _ => []
  | .networkOperator | .subscriberNumber | .listCalls | .phoneState => []

theorem requests_callHold (hcode : CallHold.ofCode code = .ok hold) :
    s.requests (.callHold code) = (hold.operations s.calls).map (·.request s.config.videoState) := by
  simp only [requests, hcode]

theorem requests_callHold_eq_nil_iff (hcode : CallHold.ofCode code = .ok hold) :
    s.requests (.callHold code) = [] ↔ hold.operations s.calls = [] := by
  rw [requests_callHold hcode, List.map_eq_nil_iff]

theorem swap_mem_requests_iff (hcode : CallHold.ofCode code = .ok hold) :
    Request.swap id ∈ s.requests (.callHold code) ↔ Operation.swap id ∈ hold.operations s.calls := by
  simp only [requests_callHold hcode, List.mem_map, Operation.request_eq_swap_iff, exists_eq_right]

theorem any_isSwap_iff (hcode : CallHold.ofCode code = .ok hold) :
    (hold.operations s.calls).any Operation.isSwap = true ↔ ∃ id, .swap id ∈ s.requests (.callHold code) := by
  simp only [swap_mem_requests_iff hcode, List.any_eq_true, Operation.isSwap_iff]
  constructor
  · rintro ⟨op, hop, id, rfl⟩
    exact ⟨id, hop⟩
  · rintro ⟨id, hid⟩
    exact ⟨_, hid, id, rfl⟩

theorem requested_append (xs ys : List Output) : requested (xs ++ ys) = requested xs ++ requested ys :=
  List.filterMap_append

theorem requested_map_request (rs : List Request) : requested (rs.map .request) = rs := by
  rw [requested, List.filterMap_map]
  exact List.filterMap_some

theorem requested_announce (s : Service) : requested s.announce.2 = [] := by
  unfold announce
  split <;> rfl

theorem requested_tellCalls (s : Service) : requested s.tellCalls = [] := by
  unfold tellCalls
  split
  · rw [requested, List.filterMap_map]
    exact List.filterMap_eq_nil_iff.mpr fun _ _ => rfl
  · rfl

/-! ### The ends of a command -/

/-- How a command that acts on calls may end when it comes to the given requests. -/
inductive Ends (s : Service) : List Request → Outcome → Prop
  | refused : Ends s [] ⟨s, .status false, []⟩
  | asked {rs : List Request} (some : rs ≠ []) (plain : ∀ id, .swap id ∉ rs) :
      Ends s rs ⟨s, .status true, rs.map .request⟩
  | swapped {rs : List Request} {id : CallId} (swap : .swap id ∈ rs) :
      Ends s rs ⟨s.announce.1, .status true, rs.map .request ++ s.announce.2⟩

theorem ends_answer (s : Service) : Ends s (s.requests .answer) s.answer := by
  unfold requests answer
  cases s.calls.ringing? with
  | none => exact .refused
  | some call => exact .asked (List.cons_ne_nil _ _) (by simp)

theorem ends_hangUp (s : Service) : Ends s (s.requests .hangUp) s.hangUp := by
  unfold requests hangUp
  cases s.calls.foreground? with
  | none => exact .refused
  | some call => exact .asked (List.cons_ne_nil _ _) (by simp)

/-- The call is looked for before the tone is, so a code without a tone is refused with or without a call. -/
theorem ends_sendTone (s : Service) (code : Int32) : Ends s (s.requests (.sendTone code)) (s.sendTone code) := by
  simp only [requests, sendTone]
  cases s.calls.foreground? with
  | none => exact .refused
  | some call =>
    cases toneOfCode code with
    | error e => exact .refused
    | ok tone =>
      have hsome : [Request.playTone call tone, .stopTone call] ≠ [] := List.cons_ne_nil _ _
      exact .asked hsome (by simp)

theorem ends_callHold (s : Service) (code : Int32) : Ends s (s.requests (.callHold code)) (s.callHold code) := by
  unfold callHold
  cases hcode : CallHold.ofCode code with
  | error e =>
    have hnone : s.requests (.callHold code) = [] := by simp only [requests, hcode]
    rw [hnone]
    exact .refused
  | ok hold =>
    have hasked : (hold.operations s.calls).map (fun op => Output.request (op.request s.config.videoState)) =
        (s.requests (.callHold code)).map .request := by
      rw [requests_callHold hcode, List.map_map]
      rfl
    dsimp only
    rw [hasked]
    by_cases hnil : hold.operations s.calls = []
    · rw [if_pos (List.isEmpty_iff.mpr hnil), (requests_callHold_eq_nil_iff hcode).mpr hnil]
      exact .refused
    · rw [if_neg fun hempty => hnil (List.isEmpty_iff.mp hempty)]
      by_cases hswap : ∃ id, .swap id ∈ s.requests (.callHold code)
      · obtain ⟨id, hid⟩ := hswap
        rw [if_pos ((any_isSwap_iff hcode).mpr ⟨id, hid⟩)]
        exact .swapped hid
      · rw [if_neg fun hany => hswap ((any_isSwap_iff hcode).mp hany)]
        exact .asked (fun hnone => hnil ((requests_callHold_eq_nil_iff hcode).mp hnone)) (not_exists.mp hswap)

theorem ends_handle (h : c.actsOnCalls = true) : Ends s (s.requests c) (s.handle c) := by
  cases c with
  | answer => exact ends_answer s
  | hangUp => exact ends_hangUp s
  | sendTone code => exact ends_sendTone s code
  | callHold code => exact ends_callHold s code
  | networkOperator => cases h
  | subscriberNumber => cases h
  | listCalls => cases h
  | phoneState => cases h

namespace Ends

theorem requested_eq (h : Ends s rs o) : requested o.outputs = rs := by
  cases h with
  | refused => rfl
  | asked => exact requested_map_request rs
  | swapped => rw [requested_append, requested_map_request, requested_announce, List.append_nil]

theorem calls_eq (h : Ends s rs o) : o.service.calls = s.calls := by
  cases h with
  | refused => rfl
  | asked => rfl
  | swapped => exact calls_announce s

/-- What is refused has done nothing. -/
theorem eq_of_failed (h : Ends s rs o) (hfailed : o.response = .status false) : o = ⟨s, .status false, []⟩ := by
  cases h with
  | refused => rfl
  | asked => cases hfailed
  | swapped => cases hfailed

theorem failed_iff (h : Ends s rs o) : o.response = .status false ↔ rs = [] := by
  cases h with
  | refused => exact iff_of_true rfl rfl
  | asked hsome => exact iff_of_false nofun hsome
  | swapped hswap => exact iff_of_false nofun (List.ne_nil_of_mem hswap)

theorem succeeded_iff (h : Ends s rs o) : o.response = .status true ↔ rs ≠ [] := by
  cases h with
  | refused => exact iff_of_false nofun fun hne => hne rfl
  | asked hsome => exact iff_of_true rfl hsome
  | swapped hswap => exact iff_of_true rfl (List.ne_nil_of_mem hswap)

/-- A swap of legs is told to the headset, whatever else is asked for. -/
theorem eq_of_swap (h : Ends s rs o) (hswap : .swap id ∈ rs) :
    o = ⟨s.announce.1, .status true, rs.map .request ++ s.announce.2⟩ := by
  cases h with
  | refused => cases hswap
  | asked _ hplain => exact absurd hswap (hplain id)
  | swapped => rfl

end Ends

/-! ### All commands -/

/-- The call manager is asked for what the command comes to, and for nothing else. -/
theorem requested_handle (s : Service) (c : Command) : requested (s.handle c).outputs = s.requests c := by
  cases c with
  | answer => exact (ends_answer s).requested_eq
  | hangUp => exact (ends_hangUp s).requested_eq
  | sendTone code => exact (ends_sendTone s code).requested_eq
  | callHold code => exact (ends_callHold s code).requested_eq
  | networkOperator => rfl
  | subscriberNumber => rfl
  | listCalls => exact requested_tellCalls s
  | phoneState => exact requested_announce s

/-- No command changes the calls by itself. -/
theorem calls_handle (s : Service) (c : Command) : (s.handle c).service.calls = s.calls := by
  cases c with
  | answer => exact (ends_answer s).calls_eq
  | hangUp => exact (ends_hangUp s).calls_eq
  | sendTone code => exact (ends_sendTone s code).calls_eq
  | callHold code => exact (ends_callHold s code).calls_eq
  | networkOperator => rfl
  | subscriberNumber => rfl
  | listCalls => rfl
  | phoneState => exact calls_announce s

end Service
end HandsFree

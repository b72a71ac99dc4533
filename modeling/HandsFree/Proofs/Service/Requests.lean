import HandsFree.Proofs.CallHold
import HandsFree.Proofs.CallTable.Parts
import HandsFree.Proofs.Service.Status

/-! Every request that reaches the call manager names the right call. `Warranted` says which command may ask for
    what, of which call, and what that call must be able to do; nothing else is ever asked for. A hold
    command asks for one thing at most, except that releasing the active call may go on to accept another
    one. -/

namespace HandsFree

/-- The call that the request acts on; the other call of a conference is only a companion. -/
def Request.target : Request → CallId
  | answer call _ | reject call _ _ | disconnect call | hold call | unhold call | conference call _ | merge call
  | swap call | playTone call _ | stopTone call => call

open CallTable

/-- The requests that a command may lead to. -/
inductive Warranted (s : Service) : Command → Request → Prop
  | answer {c : Call} (h : s.calls.IsFirst (· = .ringing) c) : Warranted s .answer (.answer c.id s.config.videoState)
  | hangUp {c : Call} (h : s.calls.IsForeground c) : Warranted s .hangUp (.disconnect c.id)
  | playTone {c : Call} {code : Int32} {tone : Char} (h : s.calls.IsForeground c) (hcode : code.toInt = tone.toNat) :
      Warranted s (.sendTone code) (.playTone c.id tone)
  | stopTone {c : Call} {code : Int32} (h : s.calls.IsForeground c) : Warranted s (.sendTone code) (.stopTone c.id)
  | reject {c : Call} (h : s.calls.IsFirst (· = .ringing) c) : Warranted s (.callHold 0) (.reject c.id false none)
  | dropHeld {c : Call} (h : s.calls.IsFirst (· = .onHold) c) : Warranted s (.callHold 0) (.disconnect c.id)
  | dropActive {c : Call} (h : s.calls.IsFirst (· = .active) c) : Warranted s (.callHold 1) (.disconnect c.id)
  | acceptRinging {c : Call} {code : Int32} (hcode : code = 1 ∨ code = 2) (h : s.calls.IsFirst (· = .ringing) c) :
      Warranted s (.callHold code) (.answer c.id s.config.videoState)
  | acceptHeld {c : Call} {code : Int32} (hcode : code = 1 ∨ code = 2) (h : s.calls.IsFirst (· = .onHold) c) :
      Warranted s (.callHold code) (.unhold c.id)
  | hold {c : Call} (h : s.calls.IsFirst (· = .active) c) (hcan : c.can .hold = true) :
      Warranted s (.callHold 2) (.hold c.id)
  | swap {c : Call} (h : s.calls.IsFirst (· = .active) c) (hconference : c.isConference = true)
      (hcan : c.can .swap = true) (hlegs : c.can .noChildren = false) (hmerged : c.mergedBefore = false) :
      Warranted s (.callHold 2) (.swap c.id)
  | merge {c : Call} (h : s.calls.IsFirst (· = .active) c) (hcan : c.can .merge = true) :
      Warranted s (.callHold 3) (.merge c.id)
  | conference {c : Call} {other : CallId} (h : s.calls.IsFirst (· = .active) c) (hcan : c.can .merge = false)
      (hother : c.conferenceable.head? = some other) : Warranted s (.callHold 3) (.conference c.id other)

/-- Whatever is asked for, a call at top level is to do it. -/
theorem Warranted.exists_target {s : Service} {c : Command} {r : Request} (h : Warranted s c r) :
    ∃ call ∈ s.calls.calls, call.id = r.target ∧ call.parent = none := by
  have first : ∀ {q : CallState → Prop} {d : Call}, s.calls.IsFirst q d → d.id = r.target →
      ∃ call ∈ s.calls.calls, call.id = r.target ∧ call.parent = none := fun h hid => ⟨_, h.mem, hid, h.top⟩
  have foreground : ∀ {d : Call}, s.calls.IsForeground d → d.id = r.target →
      ∃ call ∈ s.calls.calls, call.id = r.target ∧ call.parent = none :=
    fun h hid => ⟨_, h.mem_top.1, hid, h.mem_top.2⟩
  cases h with
  | answer h => exact first h rfl
  | hangUp h => exact foreground h rfl
  | playTone h => exact foreground h rfl
  | stopTone h => exact foreground h rfl
  | reject h => exact first h rfl
  | dropHeld h => exact first h rfl
  | dropActive h => exact first h rfl
  | acceptRinging _ h => exact first h rfl
  | acceptHeld _ h => exact first h rfl
  | hold h => exact first h rfl
  | swap h => exact first h rfl
  | merge h => exact first h rfl
  | conference h => exact first h rfl

namespace Service
variable {s : Service} {code : Int32} {o : Operation} {call : Call}

/-! ### Hold commands, part by part -/

/-- The request for an operation of a hold command is warranted. -/
def Warrants (s : Service) (code : Int32) (o : Operation) : Prop :=
  Warranted s (.callHold code) (o.request s.config.videoState)

theorem warrants_of_mem_accept (hcode : code = 1 ∨ code = 2) (ho : o ∈ CallHold.accept s.calls) :
    s.Warrants code o := by
  unfold CallHold.accept at ho
  split at ho
  · rename_i hr
    obtain rfl := List.mem_singleton.mp ho
    obtain ⟨c, hc, rfl⟩ := exists_isFirst_of_firstInStates? hr
    exact .acceptRinging hcode hc
  · rename_i hh
    obtain rfl := List.mem_singleton.mp ho
    obtain ⟨c, hc, rfl⟩ := exists_isFirst_of_firstInStates? hh
    exact .acceptHeld hcode hc
  · cases ho

theorem warrants_of_mem_releaseHeld (ho : o ∈ CallHold.releaseHeld.operations s.calls) : s.Warrants 0 o := by
  rw [CallHold.operations] at ho
  split at ho
  · rename_i hr
    obtain rfl := List.mem_singleton.mp ho
    obtain ⟨c, hc, rfl⟩ := exists_isFirst_of_firstInStates? hr
    exact .reject hc
  · rename_i hh
    obtain rfl := List.mem_singleton.mp ho
    obtain ⟨c, hc, rfl⟩ := exists_isFirst_of_firstInStates? hh
    exact .dropHeld hc
  · cases ho

theorem warrants_of_mem_releaseActive (ho : o ∈ CallHold.releaseActive.operations s.calls) : s.Warrants 1 o := by
  rw [CallHold.operations, List.mem_append, Option.mem_toList, Option.map_eq_some_iff] at ho
  rcases ho with ⟨id, ha, rfl⟩ | ho
  · obtain ⟨c, hc, rfl⟩ := exists_isFirst_of_firstInStates? ha
    exact .dropActive hc
  · exact warrants_of_mem_accept (Or.inl rfl) ho

theorem warrants_of_mem_setAside (hu : s.calls.UniqueIds) (hc : s.calls.activeCall? = some call)
    (ho : o ∈ CallHold.setAside s.calls call) : s.Warrants 2 o := by
  have hfirst := hu.activeCall?_eq_some_iff.mp hc
  rw [CallHold.setAside] at ho
  cases hswap : CallHold.swappable? s.calls call with
  | some id =>
    rw [hswap] at ho
    obtain rfl := List.mem_singleton.mp ho
    obtain ⟨⟨hconference, hcan, hlegs, hmerged⟩, rfl⟩ := (CallHold.swappable?_eq_some_iff hu hc).mp hswap
    exact .swap hfirst hconference hcan hlegs hmerged
  | none =>
    rw [hswap] at ho
    dsimp only at ho
    by_cases hcan : call.can .hold = true
    · rw [if_pos hcan] at ho
      obtain rfl := List.mem_singleton.mp ho
      exact .hold hfirst hcan
    · rw [if_neg hcan] at ho
      cases ho

theorem warrants_of_mem_holdActive (hu : s.calls.UniqueIds) (ho : o ∈ CallHold.holdActive.operations s.calls) :
    s.Warrants 2 o := by
  rw [CallHold.operations_holdActive] at ho
  split at ho
  · cases hc : s.calls.activeCall? with
    | none =>
      rw [hc] at ho
      cases ho
    | some call =>
      rw [hc] at ho
      exact warrants_of_mem_setAside hu hc ho
  · exact warrants_of_mem_accept (Or.inr rfl) ho

theorem warrants_of_mem_addHeld (hu : s.calls.UniqueIds) (ho : o ∈ CallHold.addHeld.operations s.calls) :
    s.Warrants 3 o := by
  rw [CallHold.operations] at ho
  cases hc : s.calls.activeCall? with
  | none =>
    rw [hc] at ho
    cases ho
  | some call =>
    rw [hc] at ho
    have hfirst := hu.activeCall?_eq_some_iff.mp hc
    change o ∈ CallHold.joinTo call at ho
    unfold CallHold.joinTo at ho
    split at ho
    · rename_i hcan
      obtain rfl := List.mem_singleton.mp ho
      exact .merge hfirst hcan
    · rename_i hcan
      split at ho
      · rename_i other rest hother
        obtain rfl := List.mem_singleton.mp ho
        exact .conference hfirst (Bool.eq_false_of_not_eq_true hcan) (by rw [hother]; rfl)
      · cases ho

theorem warranted_callHold (hu : s.calls.UniqueIds) {r : Request} (hr : r ∈ s.requests (.callHold code)) :
    Warranted s (.callHold code) r := by
  rw [requests] at hr
  cases hk : CallHold.ofCode code with
  | error e =>
    rw [hk] at hr
    cases hr
  | ok k =>
    rw [hk] at hr
    obtain ⟨o, ho, rfl⟩ := List.mem_map.mp hr
    cases k with
    | releaseHeld =>
      obtain rfl : code = 0 := CallHold.eq_of_ofCode hk rfl
      exact warrants_of_mem_releaseHeld ho
    | releaseActive =>
      obtain rfl : code = 1 := CallHold.eq_of_ofCode hk rfl
      exact warrants_of_mem_releaseActive ho
    | holdActive =>
      obtain rfl : code = 2 := CallHold.eq_of_ofCode hk rfl
      exact warrants_of_mem_holdActive hu ho
    | addHeld =>
      obtain rfl : code = 3 := CallHold.eq_of_ofCode hk rfl
      exact warrants_of_mem_addHeld hu ho

/-! ### All commands -/

theorem toNat_ofNat {n : Nat} (h : n.isValidChar) : (Char.ofNat n).toNat = n := by
  unfold Char.ofNat
  rw [dif_pos h]
  rfl

theorem code_of_toneOfCode {tone : Char} (h : toneOfCode code = .ok tone) : code.toInt = tone.toNat := by
  unfold toneOfCode at h
  dsimp only at h
  split at h
  · rename_i hvalid
    cases h
    rw [toNat_ofNat hvalid.2]
    omega
  · cases h

theorem warranted_of_mem_requests (hu : s.calls.UniqueIds) {c : Command} {r : Request} (hr : r ∈ s.requests c) :
    Warranted s c r := by
  cases c with
  | answer =>
    rw [requests, Option.mem_toList, Option.map_eq_some_iff] at hr
    obtain ⟨id, hringing, rfl⟩ := hr
    obtain ⟨call, hcall, rfl⟩ := exists_isFirst_of_firstInStates? hringing
    exact .answer hcall
  | hangUp =>
    rw [requests, Option.mem_toList, Option.map_eq_some_iff] at hr
    obtain ⟨id, hforeground, rfl⟩ := hr
    obtain ⟨call, hcall, rfl⟩ := exists_isForeground hforeground
    exact .hangUp hcall
  | sendTone code =>
    rw [requests] at hr
    split at hr
    · rename_i hforeground htone
      obtain ⟨call, hcall, rfl⟩ := exists_isForeground hforeground
      rw [List.mem_pair] at hr
      rcases hr with rfl | rfl
      · exact .playTone hcall (code_of_toneOfCode htone)
      · exact .stopTone hcall
    · cases hr
  | callHold code => exact warranted_callHold hu hr
  | networkOperator => cases hr
  | subscriberNumber => cases hr
  | listCalls => cases hr
  | phoneState => cases hr

theorem requests_callHold_cases (s : Service) (code : Int32) :
    (s.requests (.callHold code)).length ≤ 1 ∨ (code = 1 ∧ ∃ a b,
      s.requests (.callHold code) = [.disconnect a, .answer b s.config.videoState] ∨
      s.requests (.callHold code) = [.disconnect a, .unhold b]) := by
  rw [requests]
  cases hk : CallHold.ofCode code with
  | error e => exact Or.inl (Nat.zero_le 1)
  | ok k =>
    dsimp only
    rcases CallHold.operations_cases s.calls k with h | ⟨rfl, a, b, h | h⟩
    · rw [List.length_map]
      exact Or.inl h
    · rw [h]
      exact Or.inr ⟨CallHold.eq_of_ofCode hk rfl, a, b, Or.inl rfl⟩
    · rw [h]
      exact Or.inr ⟨CallHold.eq_of_ofCode hk rfl, a, b, Or.inr rfl⟩

/-- Whatever the command and the state of the service, every request that reaches the call manager names a
    tracked call at top level, and the command may ask for it of that call. A hold command asks for at most
    one thing, unless it releases the active call and then accepts the ringing or the held one. -/
theorem requested_warranted (s : Service) (hu : s.calls.UniqueIds) (c : Command) :
    (∀ r ∈ requested (s.handle c).outputs,
      (∃ call ∈ s.calls.calls, call.id = r.target ∧ call.parent = none) ∧ Warranted s c r) ∧
    ∀ code, c = .callHold code →
      (requested (s.handle c).outputs).length ≤ 1 ∨ (code = 1 ∧ ∃ a b,
        requested (s.handle c).outputs = [.disconnect a, .answer b s.config.videoState] ∨
        requested (s.handle c).outputs = [.disconnect a, .unhold b]) := by
  rw [requested_handle]
  refine ⟨fun r hr => ?_, ?_⟩
  · have h := warranted_of_mem_requests hu hr
    exact ⟨h.exists_target, h⟩
  · rintro code rfl
    exact requests_callHold_cases s code

/-- Two legs are active within a conference that can swap them, and another call rings. -/
def knocked : Service :=
  { calls := ⟨[{ id := ⟨2⟩, state := .active, parent := some ⟨1⟩ }, { id := ⟨3⟩, state := .active, parent := some ⟨1⟩ },
      { id := ⟨1⟩, state := .active, capabilities := { swap := true }, isConference := true, children := [⟨2⟩, ⟨3⟩] },
      { id := ⟨4⟩, state := .ringing }]⟩
    config := { videoState := .bidirectional } }

theorem requested_warranted_knocked :
    knocked.calls.UniqueIds ∧
    Warranted knocked (.callHold 1) (.disconnect ⟨1⟩) ∧
    Warranted knocked (.callHold 1) (.answer ⟨4⟩ .bidirectional) ∧
    Warranted knocked (.callHold 2) (.answer ⟨4⟩ .bidirectional) ∧
    (∃ call ∈ knocked.calls.calls, call.id = ⟨1⟩ ∧ call.parent = none) ∧
    (requested (knocked.handle (.callHold 2)).outputs).length ≤ 1 := by
  have hu : knocked.calls.UniqueIds := by decide
  obtain ⟨hrelease, -⟩ := requested_warranted knocked hu (.callHold 1)
  obtain ⟨hhold, hcount⟩ := requested_warranted knocked hu (.callHold 2)
  have hone : (requested (knocked.handle (.callHold 2)).outputs).length ≤ 1 := by
    rcases hcount 2 rfl with h | ⟨h, -⟩
    · exact h
    · cases h
  exact ⟨hu, (hrelease (.disconnect ⟨1⟩) (by decide)).2, (hrelease (.answer ⟨4⟩ .bidirectional) (by decide)).2,
    (hhold (.answer ⟨4⟩ .bidirectional) (by decide)).2, (hrelease (.disconnect ⟨1⟩) (by decide)).1, hone⟩

end Service
end HandsFree

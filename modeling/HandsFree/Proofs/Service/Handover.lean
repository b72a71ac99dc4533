import HandsFree.Proofs.PhoneState
import HandsFree.Proofs.Service.Transition

/-! A second call is placed while one is active: the active call goes on hold, the new one starts to dial,
    and each change is reported some time after it has happened. A report of one change that comes before
    the other change is held back, and the first report after both tells the headset of the held and the
    dialing call together. So it hears just that, in whatever order changes and reports come. -/

namespace HandsFree

/-- Call `a` is active and call `b` is being connected; no other call at top level is active, being placed,
    ringing or on hold, and none at all is connecting. -/
structure Handover (t : CallTable) (a b : CallId) : Prop where
  ids : t.UniqueIds
  settled : t.isSettled = true
  active : ∃ c ∈ t.calls, c.id = a ∧ c.parent = none ∧ c.state = .active
  connecting : ∃ c ∈ t.calls, c.id = b ∧ c.parent = none ∧ c.state = .connecting
  onlyActive : ∀ c ∈ t.calls, c.parent = none → c.state = .active → c.id = a
  onlyConnecting : ∀ c ∈ t.calls, c.state = .connecting → c.id = b
  onlyOutgoing : ∀ c ∈ t.calls, c.parent = none → c.state.isOutgoing = true → c.id = b
  noneRinging : ¬t.HasTopLevel (· = .ringing)
  noneHeld : ¬t.HasTopLevel (· = .onHold)

/-- The calls once `a` is on hold and `b` is dialing. -/
def handedOver (t : CallTable) (a b : CallId) : CallTable := (t.setState a .onHold).setState b .dialing

namespace Handover
open CallTable
variable {t : CallTable} {a b : CallId}

theorem ne (h : Handover t a b) : a ≠ b := by
  rintro rfl
  obtain ⟨c, hc, rfl, -, hactive⟩ := h.active
  obtain ⟨d, hd, hdc, -, hconnecting⟩ := h.connecting
  rw [h.ids.eq_of_id hd hc hdc, hactive] at hconnecting
  cases hconnecting

/-- The state of a call once both changes are made. -/
def stateAfter (a b : CallId) (c : Call) : CallState :=
  if c.id = b then .dialing else if c.id = a then .onHold else c.state

theorem mem_handedOver (h : Handover t a b) {c : Call} :
    c ∈ (handedOver t a b).calls ↔ ∃ d ∈ t.calls, c = d.withState (stateAfter a b d) := by
  rw [handedOver, h.ids.setState.mem_setState]
  constructor
  · rintro ⟨e, he, rfl⟩
    obtain ⟨d, hd, rfl⟩ := h.ids.mem_setState.mp he
    exact ⟨d, hd, rfl⟩
  · rintro ⟨d, hd, rfl⟩
    exact ⟨_, h.ids.mem_setState.mpr ⟨d, hd, rfl⟩, rfl⟩

theorem stateAfter_cases (a b : CallId) (c : Call) :
    (c.id = b ∧ stateAfter a b c = .dialing) ∨ (c.id = a ∧ stateAfter a b c = .onHold) ∨
      (c.id ≠ a ∧ c.id ≠ b ∧ stateAfter a b c = c.state) := by
  unfold stateAfter
  by_cases hb : c.id = b
  · exact Or.inl ⟨hb, if_pos hb⟩
  · rw [if_neg hb]
    by_cases ha : c.id = a
    · exact Or.inr (Or.inl ⟨ha, if_pos ha⟩)
    · exact Or.inr (Or.inr ⟨ha, hb, if_neg ha⟩)

/-- What a call at top level can be after both changes: on hold, dialing, or in a state of no part. -/
theorem topLevel_cases (h : Handover t a b) {c : Call} (hc : c ∈ (handedOver t a b).calls) (htop : c.parent = none) :
    (c.id = b ∧ c.state = .dialing) ∨ (c.id = a ∧ c.state = .onHold) ∨
      (c.state ≠ .active ∧ c.state ≠ .ringing ∧ c.state ≠ .onHold ∧ c.state.isOutgoing = false) := by
  obtain ⟨d, hd, rfl⟩ := h.mem_handedOver.mp hc
  simp only [Call.id_withState, Call.state_withState, Call.parent_withState] at htop ⊢
  rcases stateAfter_cases a b d with hdial | hhold | ⟨hna, hnb, hstate⟩
  · exact Or.inl hdial
  · exact Or.inr (Or.inl hhold)
  · rw [hstate]
    refine Or.inr (Or.inr ⟨?_, ?_, ?_, ?_⟩)
    · exact fun hactive => hna (h.onlyActive d hd htop hactive)
    · exact fun hringing => h.noneRinging ⟨d, hd, htop, hringing⟩
    · exact fun hheld => h.noneHeld ⟨d, hd, htop, hheld⟩
    · exact Bool.eq_false_iff.mpr fun hout => hnb (h.onlyOutgoing d hd htop hout)

theorem uniqueIds_handedOver (h : Handover t a b) : (handedOver t a b).UniqueIds := h.ids.setState.setState

theorem not_hasTopLevel_handedOver (h : Handover t a b) {x : CallState} (hx : x = .active ∨ x = .ringing) :
    ¬(handedOver t a b).HasTopLevel (· = x) := by
  rintro ⟨c, hc, htop, rfl⟩
  rcases h.topLevel_cases hc htop with ⟨-, hs⟩ | ⟨-, hs⟩ | ⟨hactive, hringing, -⟩
  · simp [hs] at hx
  · simp [hs] at hx
  · exact hx.elim hactive hringing

theorem not_connecting_handedOver (h : Handover t a b) : ∀ c ∈ (handedOver t a b).calls, c.state ≠ .connecting := by
  intro c hc
  obtain ⟨d, hd, rfl⟩ := h.mem_handedOver.mp hc
  rw [Call.state_withState]
  rcases stateAfter_cases a b d with ⟨-, hs⟩ | ⟨-, hs⟩ | ⟨-, hnb, hs⟩
  · simp [hs]
  · simp [hs]
  · rw [hs]
    exact fun hconnecting => hnb (h.onlyConnecting d hd hconnecting)

/-- Of the calls at top level, `a` and no other is on hold. -/
theorem held_handedOver (h : Handover t a b) :
    (handedOver t a b).held? = some a ∧ (handedOver t a b).heldCount = 1 := by
  obtain ⟨d, hd, rfl, hpar, -⟩ := h.active
  have hstate : stateAfter d.id b d = .onHold := by rw [stateAfter, if_neg h.ne, if_pos rfl]
  have hmem := h.mem_handedOver.mpr ⟨d, hd, rfl⟩
  rw [hstate] at hmem
  have honly : ∀ c ∈ (handedOver t d.id b).calls, c.parent = none → c.state = .onHold → c.id = d.id := by
    intro c hc htop hheld
    rcases h.topLevel_cases hc htop with ⟨-, hs⟩ | ⟨hid, -⟩ | ⟨-, -, hs, -⟩
    · rw [hheld] at hs
      cases hs
    · exact hid
    · exact absurd hheld hs
  constructor
  · refine firstTopLevel?_eq_some (c := d.withState .onHold) hmem hpar rfl fun c hc htop hheld => ?_
    exact honly c hc htop (by simpa using hheld)
  · exact h.uniqueIds_handedOver.countInState_eq_one hmem hpar honly

/-- Of the calls at top level, `b` and no other is being placed. -/
theorem outgoing_handedOver (h : Handover t a b) :
    ∃ c, (handedOver t a b).outgoingCall? = some c ∧ c.state = .dialing := by
  obtain ⟨d, hd, rfl, hpar, -⟩ := h.connecting
  have hstate : stateAfter a d.id d = .dialing := if_pos rfl
  have hmem := h.mem_handedOver.mpr ⟨d, hd, rfl⟩
  rw [hstate] at hmem
  refine ⟨d.withState .dialing, ?_, rfl⟩
  rw [outgoingCall?, outgoing?, firstTopLevel?_eq_some hmem hpar rfl]
  · exact h.uniqueIds_handedOver.get?_of_mem hmem
  · intro c hc htop hout
    rcases h.topLevel_cases hc htop with ⟨hid, -⟩ | ⟨-, hs⟩ | ⟨-, -, -, hs⟩
    · exact hid
    · rw [hs] at hout
      cases hout
    · exact Bool.noConfusion (hs.symm.trans hout)

theorem ofCalls_handedOver (h : Handover t a b) :
    PhoneState.ofCalls (handedOver t a b) = ⟨0, 1, .alerting, "", 128⟩ := by
  obtain ⟨c, hout, hc⟩ := h.outgoing_handedOver
  rw [PhoneState.ofCalls_of_dialing (h.not_hasTopLevel_handedOver (Or.inl rfl))
    (h.not_hasTopLevel_handedOver (Or.inr rfl)) hout hc, h.held_handedOver.2]
  rfl

theorem atRest_handedOver (h : Handover t a b) : (handedOver t a b).AtRest := by
  constructor
  · rw [h.held_handedOver.2]
    decide
  · rw [handedOver, isSettled_setState, isSettled_setState]
    exact h.settled

/-- Both calls show as before only as long as `a` is active. -/
theorem isNews_handedOver (h : Handover t a b) {m : Debounce} (hm : m.last = some (PhoneState.ofCalls t)) :
    m.isNews (handedOver t a b) = true := by
  rw [Debounce.isNews_iff, hm]
  refine Or.inl fun heq => ?_
  obtain ⟨c, hc, -, hpar, hactive⟩ := h.active
  have hone : (PhoneState.ofCalls t).numActive = 1 :=
    PhoneState.numActive_ofCalls_eq_one_iff.mpr ⟨c, hc, hpar, hactive⟩
  rw [Option.some.inj heq, h.ofCalls_handedOver] at hone
  cases hone

/-! ### Reports before and after both changes -/

theorem hold_heldBack (h : Handover t a b) :
    (CallEvent.stateChanged a .active .onHold).matters (t.setState a .onHold) = false := by
  obtain ⟨d, hd, rfl, -, hconnecting⟩ := h.connecting
  have hmem : d.withState .connecting ∈ (t.setState a .onHold).calls := by
    refine h.ids.mem_setState.mpr ⟨d, hd, ?_⟩
    rw [if_neg h.ne.symm, hconnecting]
  have hany : (t.setState a .onHold).calls.any (·.state == .connecting) = true :=
    List.any_eq_true.mpr ⟨_, hmem, rfl⟩
  simp [CallEvent.matters, CallEvent.changeMatters, hany]

theorem dial_heldBack (h : Handover t a b) :
    (CallEvent.stateChanged b .connecting .dialing).matters (t.setState b .dialing) = false := by
  obtain ⟨d, hd, rfl, hpar, hactive⟩ := h.active
  have hmem : d.withState .active ∈ (t.setState b .dialing).calls := by
    refine h.ids.mem_setState.mpr ⟨d, hd, ?_⟩
    rw [if_neg h.ne, hactive]
  have hsome := isSome_active?_of_hasTopLevel ⟨_, hmem, hpar, rfl⟩
  simp [CallEvent.matters, CallEvent.changeMatters, hsome]

theorem hold_matters (h : Handover t a b) :
    (CallEvent.stateChanged a .active .onHold).matters (handedOver t a b) = true := by
  have hany : (handedOver t a b).calls.any (·.state == .connecting) = false := by
    rw [List.any_eq_false]
    intro c hc
    simpa using h.not_connecting_handedOver c hc
  simp [CallEvent.matters, CallEvent.changeMatters, hany]

theorem dial_matters (h : Handover t a b) :
    (CallEvent.stateChanged b .connecting .dialing).matters (handedOver t a b) = true := by
  have hnone : (handedOver t a b).active? = none := by
    rw [active?, firstInStates?, firstTopLevel?_eq_none_iff]
    intro c hc htop
    have hne : c.state ≠ .active := fun hactive =>
      h.not_hasTopLevel_handedOver (Or.inl rfl) ⟨c, hc, by simpa [Call.isTopLevel] using htop, hactive⟩
    simpa using hne
  simp [CallEvent.matters, CallEvent.changeMatters, hnone]

/-- Until both changes are made, the headset hears nothing. -/
theorem reaches_handedOver {r : Run} (h : Handover r.service.calls a b) {pre : List Transition}
    (hpre : pre = [.enter a .onHold, .enter b .dialing] ∨
      pre = [.enter a .onHold, .report a .active .onHold, .enter b .dialing] ∨
      pre = [.enter b .dialing, .enter a .onHold] ∨
      pre = [.enter b .dialing, .report b .connecting .dialing, .enter a .onHold]) :
    r.Reaches (r.moves pre) (handedOver r.service.calls a b) r.service.memory [] := by
  have start := Run.Reaches.refl r
  rcases hpre with rfl | rfl | rfl | rfl
  · exact start.enter.enter
  · exact (start.enter.heldBack (by simp [h.hold_heldBack])).enter
  · rw [handedOver, setState_comm h.ne]
    exact start.enter.enter
  · rw [handedOver, setState_comm h.ne]
    exact (start.enter.heldBack (by simp [h.dial_heldBack])).enter

end Handover

/-- Holding the active call and dialing the second one go out together, in whatever order the two changes
    and their reports come, each report after its change: the headset hears a single phone state, with one
    call on hold and one alerting, and the service comes to the same memory. -/
theorem handover_any_order {r : Run} {a b : CallId} {ts : List Transition} (hheadset : r.service.headset = true)
    (h : Handover r.service.calls a b)
    (hlast : r.service.memory.last = some (PhoneState.ofCalls r.service.calls))
    (hts : Interleaving (Transition.reported a .active .onHold) (Transition.reported b .connecting .dialing) ts) :
    wire (r.moves ts).past = wire r.past ++ [⟨⟨0, 1, .alerting, "", 128⟩, handedOver r.service.calls a b⟩] ∧
    (r.moves ts).service = { r.service with
      calls := handedOver r.service.calls a b, memory := ⟨some ⟨0, 1, .alerting, "", 128⟩, some a⟩ } := by
  obtain ⟨pre, post, rfl, hpre, hne, hpost⟩ := hts.of_pairs
  have haccepts : r.service.memory.accepts (handedOver r.service.calls a b) = true :=
    (Debounce.accepts_iff_isNews _ h.atRest_handedOver).mpr (h.isNews_handedOver hlast)
  have hreports : ∀ z ∈ post, ∃ call x y, z = .report call x y ∧
      (CallEvent.stateChanged call x y).matters (handedOver r.service.calls a b) = true := by
    intro z hz
    rcases hpost z hz with rfl | rfl
    · exact ⟨_, _, _, rfl, h.hold_matters⟩
    · exact ⟨_, _, _, rfl, h.dial_matters⟩
  have hend := (h.reaches_handedOver hpre).tellOnce hheadset haccepts hne hreports
  have hmemory : Debounce.sent (handedOver r.service.calls a b) = ⟨some ⟨0, 1, .alerting, "", 128⟩, some a⟩ := by
    rw [Debounce.sent, h.ofCalls_handedOver, h.held_handedOver.1]
  rw [h.ofCalls_handedOver, hmemory, ← Run.moves_append] at hend
  exact ⟨hend.wire, hend.service⟩

/-- An active conference, a call that is being connected and one that is over. -/
def conferenceAndNewCall : CallTable :=
  ⟨[{ id := ⟨1⟩, state := .active, isConference := true, children := [⟨3⟩] },
    { id := ⟨2⟩, state := .connecting }, { id := ⟨3⟩, state := .onHold, parent := some ⟨1⟩ },
    { id := ⟨4⟩, state := .disconnected }]⟩

def newCallRun : Run :=
  (Run.start conferenceAndNewCall {} {}).after [.message (.headset true), .message (.command .phoneState true)]

theorem handover_any_order_conference :
    newCallRun.service.headset = true ∧ Handover newCallRun.service.calls ⟨1⟩ ⟨2⟩ ∧
    newCallRun.service.memory.last = some (PhoneState.ofCalls newCallRun.service.calls) ∧
    let told := newCallRun.moves [.enter ⟨2⟩ .dialing, .report ⟨2⟩ .connecting .dialing, .enter ⟨1⟩ .onHold,
      .report ⟨1⟩ .active .onHold]
    (wire told.past).map (·.state) = [⟨1, 0, .dialing, "", 128⟩, ⟨0, 1, .alerting, "", 128⟩] ∧
    told.service.memory = ⟨some ⟨0, 1, .alerting, "", 128⟩, some ⟨1⟩⟩ := by
  have h : Handover newCallRun.service.calls ⟨1⟩ ⟨2⟩ :=
    ⟨by decide, by decide, by decide, by decide, by decide, by decide, by decide, by decide, by decide⟩
  have hbefore : (wire newCallRun.past).map (·.state) = [⟨1, 0, .dialing, "", 128⟩] := by decide
  obtain ⟨hwire, hservice⟩ := handover_any_order rfl h rfl (.right (.right (.left (.left .nil))))
  refine ⟨rfl, h, rfl, ?_, ?_⟩
  · rw [hwire, List.map_append, hbefore]
    rfl
  · rw [hservice]

end HandsFree

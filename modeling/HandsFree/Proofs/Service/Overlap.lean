import HandsFree.Proofs.Debounce
import HandsFree.Proofs.PhoneState
import HandsFree.Proofs.Service.Run

/-! A phone state with an active call and one that is being placed is no valid state of a headset. Of the
    events of the call manager, only the change from connecting to dialing is held back for it, so other
    events push such a state: the calls have it, and the event passes the filter and is news. -/

namespace HandsFree

/-- An active call and an outgoing one at once. -/
def Overlaps (p : PhoneState) : Prop := 1 ≤ p.numActive ∧ (p.state = .dialing ∨ p.state = .alerting)

instance (p : PhoneState) : Decidable (Overlaps p) := inferInstanceAs (Decidable (_ ∧ _))

/-- What gets past the filter of events while a call is active. -/
def LetsPass (t : CallTable) : CallEvent → Prop
  | .added _ | .removed _ => True
  | .stateChanged _ before after =>
    ¬(before = .connecting ∧ after = .dialing) ∧
      ¬(before = .active ∧ after = .onHold ∧ ∃ c ∈ t.calls, c.state = .connecting)
  | .conferenceChanged id => ∀ c, t.get? id = some c → c.parent = none ∧ c.children.length ≠ 1

variable {t : CallTable} {e : CallEvent}

theorem overlaps_ofCalls_iff : Overlaps (PhoneState.ofCalls t) ↔
    t.HasTopLevel (· = .active) ∧ t.HasTopLevel (fun x => x.isOutgoing = true) ∧
      ¬t.HasTopLevel (· = .ringing) := by
  rw [Overlaps, PhoneState.one_le_numActive_ofCalls_iff, PhoneState.state_ofCalls_outgoing_iff]

theorem matters_iff_letsPass (h : t.HasTopLevel (· = .active)) : e.matters t = true ↔ LetsPass t e := by
  cases e with
  | added => exact iff_of_true rfl trivial
  | removed => exact iff_of_true rfl trivial
  | stateChanged call before after =>
    simp only [CallEvent.matters, CallEvent.changeMatters, LetsPass, CallTable.isSome_active?_of_hasTopLevel h,
      Bool.and_true, Bool.and_eq_true, Bool.not_eq_true', ← Bool.not_eq_true, beq_iff_eq, List.any_eq_true,
      and_assoc]
    exact and_comm
  | conferenceChanged id =>
    simp only [CallEvent.matters, CallEvent.conferenceMatters, LetsPass]
    cases t.get? id with
    | none => simp
    | some c => simp [Call.isTopLevel]

/-- An event tells the phone state of the calls or nothing, so an overlap told is one of the calls. -/
theorem exists_overlaps_onEvent_iff (s : Service) : (∃ p ∈ phoneStates (s.onEvent e).2, Overlaps p) ↔
    (s.headset = true ∧ e.matters s.calls = true ∧ s.memory.accepts s.calls = true) ∧
      Overlaps (PhoneState.ofCalls s.calls) := by
  by_cases h : s.headset = true ∧ e.matters s.calls = true ∧ s.memory.accepts s.calls = true
  · rw [Service.onEvent_of_accepts s h]
    simp [h, phoneStates, Output.phoneState?]
  · rw [Service.onEvent_of_not_accepts s h]
    simp [h, phoneStates]

/-- When an event pushes an overlap, in whatever run: a headset is attached, a call is active and another
    one is being placed while none rings, the event gets past the filter, and the update is news and need
    not wait. -/
theorem overlap_told_iff {calls : CallTable} {registry : Registry} {config : Config} {as : List Action}
    {x : Moment} (hx : x ∈ ((Run.start calls registry config).after as).past)
    (he : x.action = .message (.event e)) :
    (∃ p ∈ phoneStates x.outputs, Overlaps p) ↔
      x.before.headset = true ∧
      (x.before.calls.HasTopLevel (· = .active) ∧ x.before.calls.HasTopLevel (fun q => q.isOutgoing = true) ∧
        ¬x.before.calls.HasTopLevel (· = .ringing)) ∧
      LetsPass x.before.calls e ∧
      x.before.calls.heldCount ≠ 2 ∧ x.before.calls.isSettled = true ∧
        x.before.memory.isNews x.before.calls = true := by
  have hout : phoneStates x.outputs = phoneStates (x.before.onEvent e).2 := by
    rw [Run.outputs_of_mem_past hx he]
    rfl
  rw [hout, exists_overlaps_onEvent_iff, Debounce.accepts_iff, overlaps_ofCalls_iff]
  constructor
  · rintro ⟨⟨hh, hm, hacc⟩, hcalls⟩
    exact ⟨hh, hcalls, (matters_iff_letsPass hcalls.1).mp hm, hacc⟩
  · rintro ⟨hh, hcalls, hpass, hacc⟩
    exact ⟨⟨hh, (matters_iff_letsPass hcalls.1).mpr hpass, hacc⟩, hcalls⟩

def secondCall : CallTable := ⟨[{ id := ⟨1⟩, state := .active }, { id := ⟨2⟩, state := .connecting }]⟩

/-- A headset is attached during a call, and then a second call is placed and announced. -/
def secondCallPlaced : List Action :=
  [.message (.headset true), .edit secondCall, .message (.event (.added ⟨2⟩))]

def secondCallRun : Run := (Run.start ⟨[{ id := ⟨1⟩, state := .active }]⟩ {} {}).after secondCallPlaced

theorem overlap_told_iff_secondCall : ∃ x ∈ secondCallRun.past, x.action = .message (.event (.added ⟨2⟩)) ∧
    ∃ p ∈ phoneStates x.outputs, Overlaps p := by
  have hmem : secondCallRun.past.head (by decide) ∈ secondCallRun.past := List.head_mem _
  have he : (secondCallRun.past.head (by decide)).action = .message (.event (.added ⟨2⟩)) := rfl
  have hpass : LetsPass secondCall (.added ⟨2⟩) := trivial
  exact ⟨_, hmem, he, (overlap_told_iff hmem he).mpr ⟨rfl, by decide, hpass, by decide, by decide, by decide⟩⟩

/-- So it is not true that no event ever pushes an active call and one that is being placed at once. -/
theorem not_forall_not_overlaps : ¬∀ (calls : CallTable) (registry : Registry) (config : Config)
    (as : List Action), ∀ x ∈ ((Run.start calls registry config).after as).past, ∀ e : CallEvent,
      x.action = .message (.event e) → ∀ p ∈ phoneStates x.outputs, ¬Overlaps p := by
  intro h
  have htold := h ⟨[{ id := ⟨1⟩, state := .active }]⟩ {} {} secondCallPlaced _ List.mem_cons_self _ rfl
  exact htold (PhoneState.ofCalls secondCall) (by decide) (by decide)

end HandsFree

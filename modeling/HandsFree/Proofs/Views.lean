import HandsFree.Proofs.CallTable.Settled
import HandsFree.Proofs.Listing
import HandsFree.Proofs.PhoneState

/-! The two views that a headset has of the calls. The phone state looks at the calls at top level, with
    the conferences among them; the listing leaves those conferences out and shows their legs. Where the
    legs follow their conference, the two views agree in every state. Where they can be merged or swapped,
    the two views still agree on held calls, except for a conference that was merged before. -/

namespace HandsFree.Views
open CallTable

variable {t : CallTable} {c p : Call}

/-! ### Legs that follow their conference -/

/-- Conferences are at top level, their legs share their state, and none of them can be merged or
    swapped. -/
structure LegsFollow (t : CallTable) : Prop where
  top : ∀ p ∈ t.calls, p.exposesChildren = true → p.parent = none
  state : ∀ c ∈ t.calls, ∀ p ∈ t.calls, c.parent = some p.id → c.state = p.state
  fixed : ∀ p ∈ t.calls, p.exposesChildren = true → p.can .merge = false ∧ p.can .swap = false

theorem LegsFollow.exposes_leg (h : LegsFollow t) {id : CallId} (hc : c ∈ t.calls) (hid : c.parent = some id) :
    c.exposesChildren = false := by
  cases he : c.exposesChildren with
  | false => rfl
  | true =>
    rw [h.top c hc he] at hid
    cases hid

/-- The calls at top level and the calls that are listed are in the same states. -/
theorem hasTopLevel_iff_unexposed (hs : t.Settled) (h : LegsFollow t) {q : CallState → Prop} :
    t.HasTopLevel q ↔ ∃ c ∈ t.calls, c.exposesChildren = false ∧ q c.state := by
  constructor
  · rintro ⟨c, hc, -, hq⟩
    cases he : c.exposesChildren with
    | false => exact ⟨c, hc, he, hq⟩
    | true =>
      obtain ⟨d, hd, hdc⟩ := hs.exists_leg hc he
      exact ⟨d, hd, h.exposes_leg hd hdc, by rwa [h.state d hd c hc hdc]⟩
  · rintro ⟨c, hc, -, hq⟩
    cases hid : c.parent with
    | none => exact ⟨c, hc, hid, hq⟩
    | some id =>
      obtain ⟨p, hp, rfl, he, -⟩ := hs.exists_parent hc hid
      exact ⟨p, hp, h.top p hp he, by rwa [← h.state c hc p hp hid]⟩

theorem LegsFollow.shownState? (hu : t.UniqueIds) (hs : t.Settled) (h : LegsFollow t) (hc : c ∈ t.calls)
    (he : c.exposesChildren = false) (hx : Listing.ownState t c ≠ .idle) :
    Listing.shownState? t c = some (Listing.ownState t c) := by
  cases hid : c.parent with
  | none => exact Listing.shownState?_of_topLevel he hx hid
  | some id =>
    obtain ⟨p, hp, rfl, hpe, -⟩ := hs.exists_parent hc hid
    obtain ⟨hm, hsw⟩ := h.fixed p hp hpe
    have hfound : c.parent.bind t.get? = some p := by rw [hid, Option.bind_some, hu.get?_of_mem hp]
    rw [Listing.shownState?_of_leg he hx hfound, Listing.state_legLine_of_not]
    simp [hm, Call.canSwapLegs, hsw]

/-- A kind of line that belongs to one kind of call is shown exactly when such a call is at top level. -/
theorem LegsFollow.shows_iff (hu : t.UniqueIds) (hs : t.Settled) (h : LegsFollow t) {Q : LineState → Prop}
    {q : CallState → Prop} (hidle : ¬Q .idle) (hq : ∀ state b, Q (LineState.ofCall state b) ↔ q state) :
    (∃ e ∈ Listing.entries t, Q e.state) ↔ t.HasTopLevel q := by
  rw [Listing.exists_mem_entries_iff, hasTopLevel_iff_unexposed hs h]
  constructor
  · rintro ⟨c, hc, x, hx, hQ⟩
    obtain ⟨he, hne⟩ := Listing.of_shownState?_eq_some hx
    rw [h.shownState? hu hs hc he hne, Option.mem_some_iff] at hx
    subst hx
    exact ⟨c, hc, he, (hq _ _).mp hQ⟩
  · rintro ⟨c, hc, he, hqc⟩
    have hQ : Q (Listing.ownState t c) := (hq _ _).mpr hqc
    have hne : Listing.ownState t c ≠ .idle := fun hi => hidle (hi ▸ hQ)
    exact ⟨c, hc, _, h.shownState? hu hs hc he hne, hQ⟩

theorem LegsFollow.heldLegs? (hu : t.UniqueIds) (h : LegsFollow t) :
    t.activeCall?.bind PhoneState.heldLegs? = none := by
  cases hp : t.activeCall? with
  | none => rfl
  | some p =>
    rw [Option.bind_some, PhoneState.heldLegs?]
    cases he : p.exposesChildren with
    | false => rfl
    | true =>
      obtain ⟨hm, hsw⟩ := h.fixed p (hu.of_activeCall? hp).1 he
      simp [hm, hsw]

/-- Outside conferences whose legs can be merged or swapped, the counts and the state of the phone are
    those of the listing. -/
theorem phoneState_eq_listing (hu : t.UniqueIds) (hlen : t.calls.length < UInt32.size - 1)
    (hs : t.isSettled = true) (h : LegsFollow t) :
    let shown := (Listing.ofCalls t).filter fun e => !e.isEndMarker
    ((PhoneState.ofCalls t).numActive = 1 ↔ ∃ e ∈ shown, e.state = .active) ∧
    (0 < (PhoneState.ofCalls t).numHeld ↔ ∃ e ∈ shown, e.state = .held) ∧
    ((PhoneState.ofCalls t).state = .incoming ↔ ∃ e ∈ shown, e.state = .incoming ∨ e.state = .waiting) ∧
    (((PhoneState.ofCalls t).state = .dialing ∨ (PhoneState.ofCalls t).state = .alerting) ↔
      (∃ e ∈ shown, e.state = .alerting) ∧ ¬∃ e ∈ shown, e.state = .incoming ∨ e.state = .waiting) ∧
    ((PhoneState.ofCalls t).state = .idle ↔
      (¬∃ e ∈ shown, e.state = .alerting) ∧ ¬∃ e ∈ shown, e.state = .incoming ∨ e.state = .waiting) := by
  have hs' := (isSettled_iff hu).mp hs
  have hcount : t.heldCount < UInt32.size := by
    have := t.heldCount_le_length
    omega
  have hactive : (∃ e ∈ Listing.entries t, e.state = .active) ↔ t.HasTopLevel (· = .active) :=
    h.shows_iff (Q := fun x => x = .active) hu hs' (by decide) Listing.ofCall_eq_active_iff
  have hheld : (∃ e ∈ Listing.entries t, e.state = .held) ↔ t.HasTopLevel (· = .onHold) :=
    h.shows_iff (Q := fun x => x = .held) hu hs' (by decide) Listing.ofCall_eq_held_iff
  have halerting : (∃ e ∈ Listing.entries t, e.state = .alerting) ↔
      t.HasTopLevel fun x => x.isOutgoing = true :=
    h.shows_iff (Q := fun x => x = .alerting) hu hs' (by decide) Listing.ofCall_eq_alerting_iff
  have hringing : (∃ e ∈ Listing.entries t, e.state = .incoming ∨ e.state = .waiting) ↔
      t.HasTopLevel (· = .ringing) :=
    h.shows_iff (Q := fun x => x = .incoming ∨ x = .waiting) hu hs' (by decide) Listing.ofCall_ringing_iff
  intro shown
  rw [show shown = Listing.entries t from Listing.filter_ofCalls hlen, hactive, hheld, hringing, halerting]
  exact ⟨PhoneState.numActive_ofCalls_eq_one_iff, PhoneState.numHeld_ofCalls_pos_iff hcount (h.heldLegs? hu),
    PhoneState.state_ofCalls_eq_incoming_iff, PhoneState.state_ofCalls_outgoing_iff,
    PhoneState.state_ofCalls_eq_idle_iff⟩

/-- An active conference of two, with a call on hold, one that rings and one that is being placed. -/
def busyPhone : CallTable :=
  ⟨[{ id := ⟨1⟩, state := .active, isConference := true, children := [⟨2⟩, ⟨3⟩] },
    { id := ⟨2⟩, state := .active, parent := some ⟨1⟩ },
    { id := ⟨3⟩, state := .active, parent := some ⟨1⟩ },
    { id := ⟨4⟩, state := .onHold },
    { id := ⟨5⟩, state := .ringing },
    { id := ⟨6⟩, state := .dialing }]⟩

theorem phoneState_eq_listing_busyPhone :
    let shown := (Listing.ofCalls busyPhone).filter fun e => !e.isEndMarker
    busyPhone.UniqueIds ∧ busyPhone.isSettled = true ∧ LegsFollow busyPhone ∧
    ((PhoneState.ofCalls busyPhone).numActive = 1 ∧ ∃ e ∈ shown, e.state = .active) ∧
    (0 < (PhoneState.ofCalls busyPhone).numHeld ∧ ∃ e ∈ shown, e.state = .held) ∧
    ((PhoneState.ofCalls busyPhone).state = .incoming ∧ ∃ e ∈ shown, e.state = .incoming ∨ e.state = .waiting) := by
  have hu : busyPhone.UniqueIds := by decide
  have hs : busyPhone.isSettled = true := by decide
  have hl : LegsFollow busyPhone := ⟨by decide, by decide, by decide⟩
  obtain ⟨hactive, hheld, hringing, -⟩ := phoneState_eq_listing hu (by decide) hs hl
  have h1 : (PhoneState.ofCalls busyPhone).numActive = 1 := by decide
  have h2 : 0 < (PhoneState.ofCalls busyPhone).numHeld := by decide
  have h3 : (PhoneState.ofCalls busyPhone).state = .incoming := by decide
  exact ⟨hu, hs, hl, ⟨h1, hactive.mp h1⟩, ⟨h2, hheld.mp h2⟩, ⟨h3, hringing.mp h3⟩⟩

/-! ### An active conference of active legs -/

/-- The active call is a conference of two or more active legs, none of them a conference, one of which
    it treats as its foreground; no other call shows legs. -/
structure ActiveConference (t : CallTable) (p : Call) : Prop where
  active : t.activeCall? = some p
  exposes : p.exposesChildren = true
  several : ∃ a ∈ p.children, ∃ b ∈ p.children, a ≠ b
  legs : ∀ c ∈ t.childrenOf p.id, c.isConference = false ∧ c.state = .active
  foreground : ∃ leg ∈ p.children, p.activeLeg = some leg
  only : ∀ c ∈ t.calls, c.exposesChildren = true → c = p

/-- The phone state reports no held leg of a conference that can swap its legs and was merged before, but
    the listing shows a held call: a leg that can still be merged, or another call. -/
def HidesHeld (t : CallTable) (p : Call) : Prop :=
  (p.can .swap = true ∧ p.mergedBefore = true) ∧ (p.can .merge = true ∨ t.HasTopLevel (· = .onHold))

theorem ActiveConference.shownState?_leg (hu : t.UniqueIds) (hs : t.Settled) (h : ActiveConference t p)
    {id : CallId} (hid : id ∈ p.children) :
    ∃ c ∈ t.calls, c.id = id ∧ Listing.shownState? t c = some (Listing.legLine p c .active).state := by
  have hp := (hu.of_activeCall? h.active).1
  obtain ⟨c, hc, rfl, hpar⟩ := (hs.listed p hp h.exposes id).mp hid
  obtain ⟨hconf, hact⟩ := h.legs c ((mem_childrenOf hu hp).mpr ⟨hc, hid⟩)
  have hown : Listing.ownState t c = .active := (Listing.ofCall_eq_active_iff _ _).mpr hact
  have hfound : c.parent.bind t.get? = some p := by rw [hpar, Option.bind_some, hu.get?_of_mem hp]
  refine ⟨c, hc, rfl, ?_⟩
  rw [Listing.shownState?_of_leg (by simp [Call.exposesChildren, hconf]) (by simp [hown]) hfound, hown]

theorem ActiveConference.mem_children (hs : t.Settled) (h : ActiveConference t p) (hc : c ∈ t.calls)
    {id : CallId} (hid : c.parent = some id) : c.id ∈ p.children := by
  obtain ⟨q, hq, rfl, he, hmem⟩ := hs.exists_parent hc hid
  rwa [h.only q hq he] at hmem

theorem ActiveConference.shows_held_iff (hu : t.UniqueIds) (hs : t.Settled) (h : ActiveConference t p) :
    (∃ e ∈ Listing.ofCalls t, e.state = .held) ↔
      (p.can .merge = true ∨ p.canSwapLegs = true) ∨ t.HasTopLevel (· = .onHold) := by
  have hp := (hu.of_activeCall? h.active).1
  rw [Listing.exists_mem_ofCalls_iff (by decide)]
  constructor
  · rintro ⟨c, hc, hshown⟩
    cases hid : c.parent with
    | none =>
      obtain ⟨he, hne⟩ := Listing.of_shownState?_eq_some hshown
      rw [Listing.shownState?_of_topLevel he hne hid, Option.some.injEq] at hshown
      exact Or.inr ⟨c, hc, hid, (Listing.ofCall_eq_held_iff _ _).mp hshown⟩
    | some id =>
      refine Or.inl (Decidable.byContradiction fun hcan => ?_)
      obtain ⟨d, hd, hdc, hleg⟩ := h.shownState?_leg hu hs (h.mem_children hs hc hid)
      rw [hu.eq_of_id hd hc hdc, hshown, Listing.state_legLine_of_not hcan] at hleg
      cases hleg
  · rintro (hcan | ⟨c, hc, htop, hheld⟩)
    · obtain ⟨leg, -, hleg⟩ := h.foreground
      -- Of two different legs at least one is not in the foreground.
      obtain ⟨id, hid, hne⟩ : ∃ id ∈ p.children, id ≠ leg := by
        obtain ⟨a, ha, b, hb, hab⟩ := h.several
        by_cases hal : a = leg
        · exact ⟨b, hb, fun hbl => hab (hal.trans hbl.symm)⟩
        · exact ⟨a, ha, hal⟩
      obtain ⟨c, hc, rfl, hshown⟩ := h.shownState?_leg hu hs hid
      rw [Listing.state_legLine_of_can hcan hleg, if_neg hne] at hshown
      exact ⟨c, hc, hshown⟩
    · have he : c.exposesChildren = false := by
        cases he : c.exposesChildren with
        | false => rfl
        | true =>
          rw [h.only c hc he, (hu.of_activeCall? h.active).2.2] at hheld
          cases hheld
      have hown : Listing.ownState t c = .held := (Listing.ofCall_eq_held_iff _ _).mpr hheld
      exact ⟨c, hc, by rw [Listing.shownState?_of_topLevel he (by simp [hown]) htop, hown]⟩

/-- The active conference itself is not on hold, so the held calls are fewer than the ids. -/
theorem ActiveConference.heldCount_lt (hu : t.UniqueIds) (h : ActiveConference t p) : t.heldCount < UInt32.size := by
  obtain ⟨hp, -, hact⟩ := hu.of_activeCall? h.active
  have hlt : t.heldCount < t.calls.length := by
    refine Nat.lt_of_le_of_ne t.heldCount_le_length fun heq => ?_
    have hall := List.countP_eq_length.mp heq p hp
    simp [hact] at hall
  exact Nat.lt_of_lt_of_le hlt hu.length_le

theorem ActiveConference.numHeld_pos_iff (hu : t.UniqueIds) (h : ActiveConference t p) :
    0 < (PhoneState.ofCalls t).numHeld ↔
      p.canSwapLegs = true ∨ (p.can .swap = false ∧ (p.can .merge = true ∨ t.HasTopLevel (· = .onHold))) := by
  cases hswap : p.can .swap with
  | true =>
    have hn : PhoneState.heldLegs? p = some (if p.mergedBefore then 0 else 1) := by
      simp [PhoneState.heldLegs?, h.exposes, hswap]
    rw [PhoneState.numHeld_ofCalls_of_heldLegs h.active hn]
    cases hm : p.mergedBefore <;> simp [Call.canSwapLegs, hswap, hm]
  | false =>
    cases hmerge : p.can .merge with
    | true =>
      have hn : PhoneState.heldLegs? p = some 1 := by simp [PhoneState.heldLegs?, h.exposes, hswap, hmerge]
      rw [PhoneState.numHeld_ofCalls_of_heldLegs h.active hn]
      simp
    | false =>
      have hn : t.activeCall?.bind PhoneState.heldLegs? = none := by
        simp [h.active, PhoneState.heldLegs?, hswap, hmerge]
      rw [PhoneState.numHeld_ofCalls_pos_iff (h.heldCount_lt hu) hn]
      simp [Call.canSwapLegs, hswap]

/-- The two views agree on whether a call is held, except where the phone state hides one. -/
theorem numHeld_eq_listing (hu : t.UniqueIds) (hs : t.isSettled = true) (h : ActiveConference t p) :
    (¬HidesHeld t p → (0 < (PhoneState.ofCalls t).numHeld ↔ ∃ e ∈ Listing.ofCalls t, e.state = .held)) ∧
    (HidesHeld t p → (PhoneState.ofCalls t).numHeld = 0 ∧ ∃ e ∈ Listing.ofCalls t, e.state = .held) := by
  have hs' := (isSettled_iff hu).mp hs
  rw [h.shows_held_iff hu hs', h.numHeld_pos_iff hu]
  constructor
  · intro hh
    simp only [HidesHeld, Call.canSwapLegs, Bool.and_eq_true, Bool.not_eq_true'] at hh ⊢
    cases hswap : p.can .swap with
    | false => simp
    | true =>
      cases hm : p.mergedBefore with
      | false => simp
      | true => simpa [hswap, hm] using hh
  · rintro ⟨⟨hswap, hm⟩, hheld⟩
    have hn : PhoneState.heldLegs? p = some 0 := by simp [PhoneState.heldLegs?, h.exposes, hswap, hm]
    refine ⟨PhoneState.numHeld_ofCalls_of_heldLegs h.active hn, ?_⟩
    rcases hheld with hmerge | hother
    · exact Or.inl (Or.inl hmerge)
    · exact Or.inr hother

/-- A conference of two that can merge and swap its legs, and may have been merged before. -/
def pairConference (merged : Bool) : Call :=
  { id := ⟨1⟩, state := .active, capabilities := { merge := true, swap := true }, isConference := true,
    children := [⟨2⟩, ⟨3⟩], activeLeg := some ⟨2⟩, mergedBefore := merged }

def pairCalls (merged : Bool) : CallTable :=
  ⟨[pairConference merged, { id := ⟨2⟩, state := .active, parent := some ⟨1⟩ },
    { id := ⟨3⟩, state := .active, parent := some ⟨1⟩ }]⟩

theorem activeConference_pairCalls (merged : Bool) :
    ActiveConference (pairCalls merged) (pairConference merged) := by
  cases merged <;> exact ⟨by decide, by decide, by decide, by decide, by decide, by decide⟩

theorem numHeld_eq_listing_pairCalls : (pairCalls false).UniqueIds ∧ (pairCalls false).isSettled = true ∧
    ActiveConference (pairCalls false) (pairConference false) ∧
    ¬HidesHeld (pairCalls false) (pairConference false) ∧
    0 < (PhoneState.ofCalls (pairCalls false)).numHeld ∧
    ∃ e ∈ Listing.ofCalls (pairCalls false), e.state = .held := by
  have hu : (pairCalls false).UniqueIds := by decide
  have hs : (pairCalls false).isSettled = true := by decide
  have hh : ¬HidesHeld (pairCalls false) (pairConference false) := fun hh => absurd hh.1.2 (by decide)
  have hpos : 0 < (PhoneState.ofCalls (pairCalls false)).numHeld := by decide
  exact ⟨hu, hs, activeConference_pairCalls false, hh, hpos,
    ((numHeld_eq_listing hu hs (activeConference_pairCalls false)).1 hh).mp hpos⟩

/-- Merged before, the pair shows a held leg in the listing and none in the phone state. -/
theorem numHeld_ne_listing_mergedPair : (pairCalls true).UniqueIds ∧ (pairCalls true).isSettled = true ∧
    ActiveConference (pairCalls true) (pairConference true) ∧
    ¬(0 < (PhoneState.ofCalls (pairCalls true)).numHeld ↔
      ∃ e ∈ Listing.ofCalls (pairCalls true), e.state = .held) :=
  ⟨by decide, by decide, activeConference_pairCalls true, by decide⟩

end HandsFree.Views

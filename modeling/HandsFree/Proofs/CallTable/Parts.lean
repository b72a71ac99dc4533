import HandsFree.Proofs.CallTable.Lookup

/-! Which call plays a part, told by its place in the table: it is at top level in the right state, and no call
    before it is. The foreground call is the first active call, else the first on hold, the first that rings
    or the first outgoing one. -/

namespace HandsFree.CallTable
variable {t : CallTable} {c : Call} {id : CallId} {x : CallState}

/-- The call is at top level in a state of the given kind, and none before it is. -/
structure IsFirst (t : CallTable) (q : CallState → Prop) (c : Call) : Prop where
  top : c.parent = none
  state : q c.state
  place : ∃ before after, t.calls = before ++ c :: after ∧ ∀ d ∈ before, d.parent = none → ¬q d.state

theorem IsFirst.mem {q : CallState → Prop} (h : t.IsFirst q c) : c ∈ t.calls := by
  obtain ⟨before, after, hcalls, -⟩ := h.place
  rw [hcalls]
  exact List.mem_append_right before List.mem_cons_self

theorem isFirst_of_find? {q : CallState → Bool} (h : (t.calls.find? fun c => c.isTopLevel && q c.state) = some c) :
    t.IsFirst (fun x => q x = true) c := by
  obtain ⟨hc, before, after, hcalls, hbefore⟩ := List.find?_eq_some_iff_append.mp h
  rw [Bool.and_eq_true, Call.isTopLevel, Option.isNone_iff_eq_none] at hc
  refine ⟨hc.1, hc.2, before, after, hcalls, fun d hd hdtop hdq => ?_⟩
  have hnot := hbefore d hd
  rw [Call.isTopLevel, hdtop, hdq] at hnot
  cases hnot

theorem IsFirst.find?_eq {q : CallState → Bool} (h : t.IsFirst (fun x => q x = true) c) :
    (t.calls.find? fun c => c.isTopLevel && q c.state) = some c := by
  obtain ⟨htop, hstate, before, after, hcalls, hbefore⟩ := h
  refine List.find?_eq_some_iff_append.mpr ⟨?_, before, after, hcalls, fun d hd => ?_⟩
  · rw [Call.isTopLevel, htop, hstate]
    rfl
  · cases hdtop : d.parent with
    | none => simp [Call.isTopLevel, hdtop, hbefore d hd hdtop]
    | some id => simp [Call.isTopLevel, hdtop]

theorem find?_eq_some_iff_isFirst {q : CallState → Bool} :
    (t.calls.find? fun c => c.isTopLevel && q c.state) = some c ↔ t.IsFirst (fun x => q x = true) c :=
  ⟨isFirst_of_find?, IsFirst.find?_eq⟩

theorem exists_isFirst_of_firstTopLevel? {q : CallState → Bool}
    (h : (t.firstTopLevel? fun c => q c.state) = some id) : ∃ c, t.IsFirst (fun x => q x = true) c ∧ c.id = id := by
  obtain ⟨c, hc, rfl⟩ := Option.map_eq_some_iff.mp h
  exact ⟨c, isFirst_of_find? hc, rfl⟩

theorem isFirst_contains_iff : t.IsFirst (fun y => [x].contains y = true) c ↔ t.IsFirst (· = x) c := by
  simp only [List.contains_cons, List.contains_nil, Bool.or_false, beq_iff_eq]

theorem exists_isFirst_of_firstInStates? (h : t.firstInStates? [x] = some id) : ∃ c, t.IsFirst (· = x) c ∧ c.id = id := by
  obtain ⟨c, hc, hid⟩ := exists_isFirst_of_firstTopLevel? (q := fun y => [x].contains y) h
  exact ⟨c, isFirst_contains_iff.mp hc, hid⟩

theorem IsFirst.firstInStates?_eq (h : t.IsFirst (· = x) c) : t.firstInStates? [x] = some c.id := by
  rw [← isFirst_contains_iff] at h
  exact congrArg (Option.map Call.id) h.find?_eq

/-- The record found under the id of the first call in a state is that call. -/
theorem UniqueIds.bind_firstInStates?_eq_some_iff (hu : t.UniqueIds) :
    (t.firstInStates? [x]).bind t.get? = some c ↔ t.IsFirst (· = x) c := by
  rw [firstInStates?, hu.bind_get?_firstTopLevel?, ← isFirst_contains_iff]
  exact find?_eq_some_iff_isFirst

theorem UniqueIds.activeCall?_eq_some_iff (hu : t.UniqueIds) : t.activeCall? = some c ↔ t.IsFirst (· = .active) c :=
  hu.bind_firstInStates?_eq_some_iff

theorem UniqueIds.ringingCall?_eq_some_iff (hu : t.UniqueIds) : t.ringingCall? = some c ↔ t.IsFirst (· = .ringing) c :=
  hu.bind_firstInStates?_eq_some_iff

theorem UniqueIds.outgoingCall?_eq_some_iff (hu : t.UniqueIds) :
    t.outgoingCall? = some c ↔ t.IsFirst (fun x => x.isOutgoing = true) c := by
  rw [outgoingCall?, outgoing?, hu.bind_get?_firstTopLevel?]
  exact find?_eq_some_iff_isFirst

/-! ### No call for a part -/

theorem firstTopLevel?_eq_none_iff_hasTopLevel {q : CallState → Bool} :
    (t.firstTopLevel? fun c => q c.state) = none ↔ ¬t.HasTopLevel fun x => q x = true := by
  rw [firstTopLevel?_eq_none_iff]
  simp only [HasTopLevel, Call.isTopLevel, Option.isNone_iff_eq_none, not_exists, not_and, Bool.not_eq_true]

theorem firstInStates?_eq_none_iff : t.firstInStates? [x] = none ↔ ¬t.HasTopLevel (· = x) := by
  rw [firstInStates?, firstTopLevel?_eq_none_iff_hasTopLevel (q := fun y => [x].contains y)]
  simp only [List.contains_cons, List.contains_nil, Bool.or_false, beq_iff_eq]

/-! ### The foreground call -/

/-- The call that single-call commands act on. -/
inductive IsForeground (t : CallTable) (c : Call) : Prop
  | active (h : t.IsFirst (· = .active) c)
  | held (hactive : ¬t.HasTopLevel (· = .active)) (h : t.IsFirst (· = .onHold) c)
  | ringing (hactive : ¬t.HasTopLevel (· = .active)) (hheld : ¬t.HasTopLevel (· = .onHold))
      (h : t.IsFirst (· = .ringing) c)
  | outgoing (hactive : ¬t.HasTopLevel (· = .active)) (hheld : ¬t.HasTopLevel (· = .onHold))
      (hringing : ¬t.HasTopLevel (· = .ringing)) (h : t.IsFirst (fun x => x.isOutgoing = true) c)

theorem IsForeground.mem_top (h : t.IsForeground c) : c ∈ t.calls ∧ c.parent = none := by
  cases h with
  | active h => exact ⟨h.mem, h.top⟩
  | held _ h => exact ⟨h.mem, h.top⟩
  | ringing _ _ h => exact ⟨h.mem, h.top⟩
  | outgoing _ _ _ h => exact ⟨h.mem, h.top⟩

theorem exists_isForeground (h : t.foreground? = some id) : ∃ c, t.IsForeground c ∧ c.id = id := by
  simp only [foreground?, Option.orElse_eq_orElse, Option.orElse_eq_or, Option.or_eq_some_iff] at h
  rcases h with ha | ⟨ha, hh | ⟨hh, hr | ⟨hr, ho⟩⟩⟩
  · obtain ⟨c, hc, hid⟩ := exists_isFirst_of_firstInStates? ha
    exact ⟨c, .active hc, hid⟩
  · obtain ⟨c, hc, hid⟩ := exists_isFirst_of_firstInStates? hh
    exact ⟨c, .held (firstInStates?_eq_none_iff.mp ha) hc, hid⟩
  · obtain ⟨c, hc, hid⟩ := exists_isFirst_of_firstInStates? hr
    exact ⟨c, .ringing (firstInStates?_eq_none_iff.mp ha) (firstInStates?_eq_none_iff.mp hh) hc, hid⟩
  · obtain ⟨c, hc, hid⟩ := exists_isFirst_of_firstTopLevel? (q := CallState.isOutgoing) ho
    exact ⟨c, .outgoing (firstInStates?_eq_none_iff.mp ha) (firstInStates?_eq_none_iff.mp hh)
      (firstInStates?_eq_none_iff.mp hr) hc, hid⟩

theorem IsForeground.foreground?_eq (h : t.IsForeground c) : t.foreground? = some c.id := by
  simp only [foreground?, Option.orElse_eq_orElse, Option.orElse_eq_or, Option.or_eq_some_iff]
  rcases h with h | ⟨hactive, h⟩ | ⟨hactive, hheld, h⟩ | ⟨hactive, hheld, hringing, h⟩
  · exact Or.inl h.firstInStates?_eq
  · exact Or.inr ⟨firstInStates?_eq_none_iff.mpr hactive, Or.inl h.firstInStates?_eq⟩
  · exact Or.inr ⟨firstInStates?_eq_none_iff.mpr hactive, Or.inr ⟨firstInStates?_eq_none_iff.mpr hheld,
      Or.inl h.firstInStates?_eq⟩⟩
  · exact Or.inr ⟨firstInStates?_eq_none_iff.mpr hactive, Or.inr ⟨firstInStates?_eq_none_iff.mpr hheld,
      Or.inr ⟨firstInStates?_eq_none_iff.mpr hringing, congrArg (Option.map Call.id) h.find?_eq⟩⟩⟩

theorem UniqueIds.foregroundCall?_eq_some_iff (hu : t.UniqueIds) : t.foregroundCall? = some c ↔ t.IsForeground c := by
  constructor
  · intro h
    obtain ⟨id, hid, hc⟩ := Option.bind_eq_some_iff.mp h
    obtain ⟨d, hd, rfl⟩ := exists_isForeground hid
    rw [hu.get?_of_mem hd.mem_top.1] at hc
    exact Option.some.inj hc ▸ hd
  · intro h
    rw [foregroundCall?, h.foreground?_eq, Option.bind_some, hu.get?_of_mem h.mem_top.1]

/-- No call at top level is active, on hold, ringing or outgoing. -/
structure Quiet (t : CallTable) : Prop where
  active : ¬t.HasTopLevel (· = .active)
  held : ¬t.HasTopLevel (· = .onHold)
  ringing : ¬t.HasTopLevel (· = .ringing)
  outgoing : ¬t.HasTopLevel fun x => x.isOutgoing = true

theorem foreground?_eq_none_iff : t.foreground? = none ↔ t.Quiet := by
  have hactive : t.active? = none ↔ ¬t.HasTopLevel (· = .active) := firstInStates?_eq_none_iff
  have hheld : t.held? = none ↔ ¬t.HasTopLevel (· = .onHold) := firstInStates?_eq_none_iff
  have hringing : t.ringing? = none ↔ ¬t.HasTopLevel (· = .ringing) := firstInStates?_eq_none_iff
  have houtgoing : t.outgoing? = none ↔ ¬t.HasTopLevel fun x => x.isOutgoing = true :=
    firstTopLevel?_eq_none_iff_hasTopLevel
  simp only [foreground?, Option.orElse_eq_orElse, Option.orElse_eq_or, Option.or_eq_none_iff, hactive, hheld,
    hringing, houtgoing]
  constructor
  · rintro ⟨ha, hh, hr, ho⟩
    exact ⟨ha, hh, hr, ho⟩
  · intro h
    exact ⟨h.active, h.held, h.ringing, h.outgoing⟩

end HandsFree.CallTable

import HandsFree.Proofs.Account
import HandsFree.Proofs.CallTable.Parts
import HandsFree.Service.Basic

/-! The operator and the subscriber number. Both are those of one account, the one that is registered for the
    foreground call or else the default account for telephone numbers. What that account leaves out comes from the
    configuration and from no other account. -/

namespace HandsFree.Service
open Registration
variable {s : Service} {t : CallTable} {rs : List Registration} {bare : Bool} {a : Account}

/-- The account is the latest one registered for the target of the foreground call. -/
def IsOfForeground (t : CallTable) (rs : List Registration) (a : Account) : Prop :=
  ∃ call handle, t.IsForeground call ∧ call.account = some handle ∧ IsLatest (IsFor handle) rs (.account a)

/-- The account is the latest one registered for the latest default handle of telephone numbers. -/
def IsOfTelephone (bare : Bool) (rs : List Registration) (a : Account) : Prop :=
  bare = false ∧ ∃ handle, IsLatest (IsDefaultOf telephoneScheme) rs (.default telephoneScheme handle) ∧
    IsLatest (IsFor handle) rs (.account a)

/-- The account speaks for the phone. -/
def IsBest (t : CallTable) (bare : Bool) (rs : List Registration) (a : Account) : Prop :=
  IsOfForeground t rs a ∨ (∀ b, ¬IsOfForeground t rs b) ∧ IsOfTelephone bare rs a

theorem foregroundAccount?_eq_some_iff (hu : s.calls.UniqueIds) (hr : s.registry = Registry.build bare rs) :
    (s.calls.foregroundCall?.bind (·.account)).bind s.registry.account? = some a ↔ IsOfForeground s.calls rs a := by
  simp only [hr, Option.bind_eq_some_iff, hu.foregroundCall?_eq_some_iff, Registry.account?_build]
  constructor
  · intro h
    obtain ⟨handle, ⟨call, hcall, htarget⟩, ha⟩ := h
    exact ⟨call, handle, hcall, htarget, ha⟩
  · intro h
    obtain ⟨call, handle, hcall, htarget, ha⟩ := h
    exact ⟨handle, ⟨call, hcall, htarget⟩, ha⟩

theorem telephoneAccount?_eq_some_iff (hr : s.registry = Registry.build bare rs) :
    (s.registry.default? telephoneScheme).bind s.registry.account? = some a ↔ IsOfTelephone bare rs a := by
  simp only [hr, Option.bind_eq_some_iff, Registry.default?_build, Registry.account?_build, and_assoc,
    exists_and_left, IsOfTelephone]

theorem bestAccount?_eq_some_iff (hu : s.calls.UniqueIds) (hr : s.registry = Registry.build bare rs) :
    s.bestAccount? = some a ↔ IsBest s.calls bare rs a := by
  have hnone : (s.calls.foregroundCall?.bind (·.account)).bind s.registry.account? = none ↔
      ∀ b, ¬IsOfForeground s.calls rs b := by
    simp only [Option.eq_none_iff_forall_ne_some, ← foregroundAccount?_eq_some_iff hu hr, ne_eq]
  rw [bestAccount?, Option.orElse_eq_orElse, Option.orElse_eq_or, Option.or_eq_some_iff,
    foregroundAccount?_eq_some_iff hu hr, hnone, telephoneAccount?_eq_some_iff hr, IsBest]

theorem IsBest.unique {b : Account} (hu : s.calls.UniqueIds) (hr : s.registry = Registry.build bare rs)
    (ha : IsBest s.calls bare rs a) (hb : IsBest s.calls bare rs b) : a = b := by
  rw [← bestAccount?_eq_some_iff hu hr] at ha hb
  exact Option.some.inj (ha.symm.trans hb)

/-! ### What the account says -/

theorem networkOperator_of_best (h : s.bestAccount? = some a) :
    s.networkOperator = a.label.getD s.config.networkOperator := by
  rw [networkOperator, h, Option.bind_some]

theorem subscriberNumber_of_best (h : s.bestAccount? = some a) :
    s.subscriberNumber =
      ((a.address.map Address.schemeSpecificPart).filter (· != "")).getD s.config.subscriberNumber := by
  rw [subscriberNumber, h, Option.bind_some]

theorem subscriberNumber_of_address {address : String} (h : s.bestAccount? = some a) (ha : a.address = some address)
    (hne : Address.schemeSpecificPart address ≠ "") : s.subscriberNumber = Address.schemeSpecificPart address := by
  rw [subscriberNumber_of_best h, ha, Option.map_some, Option.filter_some, if_pos (bne_iff_ne.mpr hne),
    Option.getD_some]

theorem subscriberNumber_of_empty (h : s.bestAccount? = some a)
    (he : ∀ address, a.address = some address → Address.schemeSpecificPart address = "") :
    s.subscriberNumber = s.config.subscriberNumber := by
  rw [subscriberNumber_of_best h]
  cases ha : a.address with
  | none => rfl
  | some address =>
    rw [Option.map_some, he address ha]
    rfl

/-- In a registry built by any registrations at most one account is the best, and operator and number come from it
    alone. A missing label, a missing address or one without a number gives way to the configuration. Asking for them
    changes and sends nothing. -/
theorem identity_of_best (s : Service) (bare : Bool) (rs : List Registration) (hu : s.calls.UniqueIds)
    (hr : s.registry = Registry.build bare rs) :
    (∀ a b, IsBest s.calls bare rs a → IsBest s.calls bare rs b → a = b) ∧
    (∀ a, IsBest s.calls bare rs a →
      (∀ label, a.label = some label → s.networkOperator = label) ∧
      (a.label = none → s.networkOperator = s.config.networkOperator) ∧
      (∀ address, a.address = some address → Address.schemeSpecificPart address ≠ "" →
        s.subscriberNumber = Address.schemeSpecificPart address) ∧
      ((∀ address, a.address = some address → Address.schemeSpecificPart address = "") →
        s.subscriberNumber = s.config.subscriberNumber)) ∧
    ((∀ a, ¬IsBest s.calls bare rs a) →
      s.networkOperator = s.config.networkOperator ∧ s.subscriberNumber = s.config.subscriberNumber) ∧
    s.handle .networkOperator = ⟨s, .text s.networkOperator, []⟩ ∧
    s.handle .subscriberNumber = ⟨s, .text s.subscriberNumber, []⟩ := by
  refine ⟨fun a b => IsBest.unique hu hr, fun a ha => ?_, fun h => ?_, rfl, rfl⟩
  · have hbest := (bestAccount?_eq_some_iff hu hr).mpr ha
    refine ⟨fun label hlabel => ?_, fun hlabel => ?_, fun address => subscriberNumber_of_address hbest,
      subscriberNumber_of_empty hbest⟩
    · rw [networkOperator_of_best hbest, hlabel, Option.getD_some]
    · rw [networkOperator_of_best hbest, hlabel, Option.getD_none]
  · have hbest : s.bestAccount? = none :=
      Option.eq_none_iff_forall_ne_some.mpr fun a ha => h a ((bestAccount?_eq_some_iff hu hr).mp ha)
    rw [networkOperator, subscriberNumber, hbest]
    exact ⟨rfl, rfl⟩

/-- The account of the foreground call was registered again, the second time without a label and with an address that
    is only a fragment. -/
def reRegistered : List Registration :=
  [.account { handle := ⟨"sim", "1"⟩, label := some "Old", address := some "tel:1" },
    .default telephoneScheme ⟨"sim", "2"⟩, .account { handle := ⟨"sim", "2"⟩, label := some "Two", address := some "tel:2" },
    .account { handle := ⟨"sim", "1"⟩, address := some "tel:#1" }]

/-- A call is active through the account registered twice, and another call is on hold. -/
def onReRegistered : Service where
  calls := ⟨[{ id := ⟨1⟩, state := .onHold, account := some ⟨"sim", "2"⟩ },
    { id := ⟨2⟩, state := .active, account := some ⟨"sim", "1"⟩ }]⟩
  registry := Registry.build false reRegistered
  config := { networkOperator := "Carrier", subscriberNumber := "555" }

theorem identity_of_best_reRegistered :
    IsBest onReRegistered.calls false reRegistered { handle := ⟨"sim", "1"⟩, address := some "tel:#1" } ∧
    onReRegistered.calls.UniqueIds ∧ onReRegistered.networkOperator = "Carrier" ∧
    onReRegistered.subscriberNumber = "555" ∧
    onReRegistered.handle .networkOperator = ⟨onReRegistered, .text "Carrier", []⟩ := by
  have hu : onReRegistered.calls.UniqueIds := by decide
  have hforeground : onReRegistered.calls.IsForeground onReRegistered.calls.calls[1] :=
    .active ⟨rfl, rfl, onReRegistered.calls.calls.take 1, [], rfl, by decide⟩
  have hbest : IsBest onReRegistered.calls false reRegistered { handle := ⟨"sim", "1"⟩, address := some "tel:#1" } :=
    Or.inl ⟨_, ⟨"sim", "1"⟩, hforeground, rfl, rfl, reRegistered.take 3, [], rfl, List.forall_mem_nil _⟩
  obtain ⟨-, hidentity, -, hoperator, -⟩ := identity_of_best onReRegistered false reRegistered hu rfl
  obtain ⟨-, hlabel, -, hnumber⟩ := hidentity _ hbest
  have hcarrier : onReRegistered.networkOperator = "Carrier" := hlabel rfl
  have hempty : Address.schemeSpecificPart "tel:#1" = "" := by decide
  rw [hcarrier] at hoperator
  exact ⟨hbest, hu, hcarrier, hnumber fun address h => Option.some.inj h ▸ hempty, hoperator⟩

end HandsFree.Service

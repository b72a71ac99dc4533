/-! Phone accounts, through which calls are placed, and the registry that knows them.

    A registration replaces an earlier one for the same handle or scheme, so a look-up answers with the
    latest entry. -/

namespace HandsFree

/-- Names a phone account: the component that registered it, and its id there. -/
structure AccountHandle where
  component : String
  id : String
  deriving DecidableEq

/-- A phone account. The label is the operator's name, the address the subscriber's own. -/
structure Account where
  handle : AccountHandle
  label : Option String := none
  address : Option String := none
  deriving DecidableEq

/-- The scheme of ordinary telephone numbers. -/
def telephoneScheme : String := "tel"

/-- The registered accounts, and for some schemes the account that outgoing calls take by default; in
    both lists the latest entry stands first. -/
structure Registry where
  accounts : List Account := []
  defaults : List (String × AccountHandle) := []
  deriving DecidableEq

namespace Registry

def addAccount (r : Registry) (a : Account) : Registry := { r with accounts := a :: r.accounts }

/-- Outgoing calls with `scheme` take the account `handle` from now on. -/
def setDefault (r : Registry) (scheme : String) (handle : AccountHandle) : Registry :=
  { r with defaults := (scheme, handle) :: r.defaults }

/-- The same accounts in a registry that names no default account. -/
def withoutDefaults (r : Registry) : Registry := { r with defaults := [] }

/-- The account registered last for `handle`. -/
def account? (r : Registry) (handle : AccountHandle) : Option Account :=
  r.accounts.find? (·.handle == handle)

/-- The handle set last as the default of `scheme`. -/
def default? (r : Registry) (scheme : String) : Option AccountHandle :=
  r.defaults.lookup scheme

@[simp] theorem account?_addAccount (r : Registry) (a : Account) (h : AccountHandle) :
    (r.addAccount a).account? h = if a.handle = h then some a else r.account? h := by
  by_cases e : a.handle = h <;> simp [account?, addAccount, e]

@[simp] theorem default?_setDefault (r : Registry) (s : String) (h : AccountHandle) (scheme : String) :
    (r.setDefault s h).default? scheme = if scheme = s then some h else r.default? scheme := by
  rw [default?, setDefault, List.lookup_cons]
  by_cases e : scheme = s
  · simp [e]
  · simp [beq_false_of_ne e, e, default?]

@[simp] theorem default?_withoutDefaults (r : Registry) (scheme : String) :
    r.withoutDefaults.default? scheme = none := rfl

end Registry

end HandsFree

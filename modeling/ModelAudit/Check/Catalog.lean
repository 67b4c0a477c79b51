import ModelAudit.Check.Reachability
import ModelAudit.Check.ReceivedSends
import ModelAudit.Check.DeadEnds

namespace ModelAudit

structure Catalog where
  checks : List Check := []

namespace Catalog

-- The check takes the place of the one with its name, but stands behind all others.
def register (c : Catalog) (check : Check) : Catalog where
  checks := c.checks.filter (·.shortName != check.shortName) ++ [check]

def get? (c : Catalog) (shortName : String) : Option Check :=
  c.checks.find? (·.shortName == shortName)

def builtin : Catalog :=
  [Check.templateLocations, Check.receiveSyncs, Check.deadlockLocations].foldl register {}

def describe (c : Catalog) : String :=
  "[" ++ ", ".intercalate (c.checks.map fun check => Text.quoted check.shortName) ++ "]"

theorem get?_register_self (c : Catalog) (check : Check) :
    (c.register check).get? check.shortName = some check := by
  have h : (c.checks.filter (·.shortName != check.shortName)).find?
      (·.shortName == check.shortName) = none := by
    simp [List.find?_eq_none]
  simp [get?, register, List.find?_append, h]

end Catalog

end ModelAudit

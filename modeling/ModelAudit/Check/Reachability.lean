import ModelAudit.Check.Basic
import ModelAudit.Search

namespace ModelAudit.Check

def unreachedIn (t : Template) (reached : List String) : List String :=
  (t.locations.filter fun l => !reached.contains l).map (qualified t)

def unreachable : List Template → Checking (List String)
  | [] => pure []
  | t :: ts => do
    let reached ← t.reachable
    let others ← unreachable ts
    return unreachedIn t reached ++ others

def templateLocations : Check where
  name := "Template location reachability"
  shortName := "template-locations"
  run c := do
    let names ← unreachable c.document.templates
    return if names.isEmpty then .passed "template-locations" "All locations reachable"
      else .violated "template-locations"
        ("Unreachable locations found: " ++ ", ".intercalate names)

end ModelAudit.Check

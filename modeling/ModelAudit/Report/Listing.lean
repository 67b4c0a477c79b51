import ModelAudit.Check.Catalog
import ModelAudit.Spec.Canonical

namespace ModelAudit

def mark (good : Bool) : String :=
  if good then "✓" else "✗"

def ordinal (index : Nat) : String :=
  "  [" ++ Text.natural (index + 1) ++ "] "

def Request.assignment (m : String × Json) : String :=
  m.1 ++ "=" ++ m.2.compact

def Entry.line (index : Nat) : Entry → String
  | .request r =>
    ordinal index ++ mark true ++ " " ++ r.check ++ " " ++
      " ".intercalate (r.parameters.map Request.assignment) ++ "\n"
  | .malformed _ e => ordinal index ++ mark false ++ " " ++ e.message ++ "\n"

def CheckSet.listing (s : CheckSet) : String :=
  String.join (s.entries.mapIdx Entry.line) ++ "\nDigest: " ++ s.digest ++ "\n"

def Parameter.Kind.choices : Parameter.Kind → String
  | text => "text"
  | checker => Checker.symbolic.text ++ "|" ++ Checker.concrete.text

def Parameter.line (p : Parameter) : String :=
  "    " ++ p.name ++ ": " ++ p.description ++ " [" ++ p.kind.choices ++
    (if p.required then ", required" else "") ++ "]\n"

def Check.lines (c : Check) : String :=
  c.shortName ++ " (" ++ c.name ++ ")\n" ++ String.join (c.parameters.map Parameter.line)

def Catalog.listing (c : Catalog) : String :=
  String.join (c.checks.map Check.lines)

end ModelAudit

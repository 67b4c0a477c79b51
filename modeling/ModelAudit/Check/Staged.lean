import ModelAudit.Check.Basic
import ModelAudit.Spec.Canonical

namespace ModelAudit.Check

-- What a check does that does as it is told, whatever the document is.
inductive Behaviour where
  | panics (message : Option String)
  | fails (error : AuditError)
  | echoes
  | violates (message : String) (template : Option String)
  -- Presses the button so often, then looks at the flag if it heeds it, and passes.
  | presses (times : Nat) (heedsFlag : Bool) (message : String)

def echo (c : Context) : String :=
  c.document.name ++ " " ++ c.checker.text ++ " " ++ c.request.toJson.compact

def Behaviour.run (shortName : String) (c : Context) : Behaviour → Checking Record
  | panics message => Activity.panic message
  | fails error => throw error
  | echoes => return .passed shortName (echo c)
  | violates message template =>
    let record := Record.violated shortName message
    return match template with
      | some name => c.attachTrace record { template := name }
      | none => record
  | presses times heedsFlag message => do
    (List.replicate times Checking.press).forM id
    if heedsFlag then Checking.poll
    return .passed shortName message

def staged (shortName name : String) (b : Behaviour) : Check where
  name := name
  shortName := shortName
  run c := b.run shortName c

end ModelAudit.Check

import ModelAudit.Check.Catalog

namespace ModelAudit

abbrev Runner :=
  CheckSet → Document → Checking Unit

namespace Catalog

-- A panic is taken for a failure of the check.
def runRequest (c : Catalog) (d : Document) (r : Request) : Checking Record :=
  match c.get? r.check with
  | none => throw (.unknownCheck r.check)
  | some check =>
    match Checker.ofRequest r with
    | .error e => throw e
    | .ok checker =>
      Activity.rescue (check.run ⟨d, r, checker⟩) fun message =>
        .error (.check r.check ("panicked: " ++ Activity.panicMessage message))

def settle (check : String) : Except AuditError Record → Checking Record
  | .ok record => pure record
  | .error .cancelled => throw .cancelled
  | .error e => pure (Record.ofError check e)

-- Whatever happens to a check becomes a record of its own. Only a request to stop ends the run.
def evaluate (c : Catalog) (d : Document) : Entry → Checking Record
  | .malformed _ e => pure (.violated Record.specificationLabel e.message)
  | .request r => Activity.bind (c.runRequest d r) (settle r.check)

def runEntries (c : Catalog) (d : Document) : List Entry → Checking Unit
  | [] => pure ()
  | e :: es => do
    Checking.poll
    let record ← c.evaluate d e
    Checking.emit (.checkFinished record.check record.satisfied record.hasTrace)
    Checking.deliver record
    c.runEntries d es

def runner (c : Catalog) : Runner := fun spec d =>
  c.runEntries d spec.entries

def describeRunner (c : Catalog) : String :=
  "CatalogRunner \x7b catalog: " ++ c.describe ++ " \x7d"

end Catalog

end ModelAudit

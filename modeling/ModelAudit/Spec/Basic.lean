import ModelAudit.Error
import ModelAudit.Text.Blank

namespace ModelAudit

structure Request where
  check : String
  parameters : List (String × Json)
deriving Repr

inductive SpecError where
  | unreadable (error : Json.ReadError)
  | notObject
  | checksMissing
  | checksNotList
  | entryNotObject (index : Nat)
  | typeMissing (index : Nat)
deriving Repr

inductive Entry where
  | request (r : Request)
  -- An item that is no request, as it was written.
  | malformed (raw : Json) (error : SpecError)
deriving Repr

structure CheckSet where
  globals : List (String × Json)
  entries : List Entry
deriving Repr

namespace SpecError

def item (index : Nat) : String :=
  "checks[" ++ Text.natural index ++ "]"

def fragment : SpecError → String
  | unreadable _ => "<document>"
  | notObject => "<document>"
  | checksMissing => "checks"
  | checksNotList => "checks"
  | entryNotObject index => item index
  | typeMissing index => item index ++ ".type"

def reason : SpecError → String
  | unreadable error => error.message
  | notObject => "expected a JSON object"
  | checksMissing => "missing 'checks' array"
  | checksNotList => "'checks' must be an array"
  | entryNotObject _ => "expected an object"
  | typeMissing _ => "missing string field 'type'"

def toAuditError (e : SpecError) : AuditError :=
  .specification e.fragment e.reason

def message (e : SpecError) : String :=
  e.toAuditError.message

end SpecError

namespace Request

def text? (r : Request) (name : String) : Option String :=
  match Json.lookup name r.parameters with
  | some (.text s) => some s
  | _ => none

def require (r : Request) (name : String) : Except AuditError String :=
  match r.text? name with
  | some s =>
    if Text.IsBlankText s then .error (.missingParameter r.check name) else .ok s
  | none => .error (.missingParameter r.check name)

end Request

-- The members of an item stand before the globals. Its type is no parameter.
def mergeParameters (globals fields : List (String × Json)) : List (String × Json) :=
  (fields.filter (·.1 != "type")).foldl (fun ms m => Json.insert m.1 m.2 ms) globals

def requestedType? (fields : List (String × Json)) : Option String :=
  match Json.lookup "type" fields with
  | some (.text s) => if Text.IsBlankText s then none else some (Text.trim s)
  | _ => none

def Entry.ofItem (globals : List (String × Json)) (index : Nat) (raw : Json) : Entry :=
  match raw with
  | .object fields =>
    match requestedType? fields with
    | some check => .request ⟨check, mergeParameters globals fields⟩
    | none => .malformed raw (.typeMissing index)
  | _ => .malformed raw (.entryNotObject index)

namespace CheckSet

def empty : CheckSet where
  globals := []
  entries := []

def ofMembers (root : List (String × Json)) : Except SpecError CheckSet :=
  match Json.lookup "checks" root with
  | some (.list items) =>
    let globals := root.filter (·.1 != "checks")
    .ok ⟨globals, items.mapIdx (Entry.ofItem globals)⟩
  | some _ => .error .checksNotList
  | none => .error .checksMissing

def parse (text : String) : Except SpecError CheckSet :=
  if Text.IsBlankText text then .ok empty
  else
    match Json.parse text with
    | .error e => .error (.unreadable e)
    | .ok (.object root) => ofMembers root
    | .ok _ => .error .notObject

def requests (s : CheckSet) : List Request :=
  s.entries.filterMap fun
    | .request r => some r
    | .malformed .. => none

def malformedCount (s : CheckSet) : Nat :=
  s.entries.countP fun
    | .request _ => false
    | .malformed .. => true

def emptyText : String := "\x7b\"checks\": []\x7d"

end CheckSet

end ModelAudit

import ModelAudit.Spec.Basic
import ModelAudit.Digest.Sha256

namespace ModelAudit

namespace Request

def overrides (globals : List (String × Json)) (r : Request) : List (String × Json) :=
  r.parameters.filter fun m =>
    match Json.lookup m.1 globals with
    | some value => !value.same m.2
    | none => true

def toItem (globals : List (String × Json)) (r : Request) : Json :=
  .object ((r.overrides globals).foldl (fun ms m => Json.insert m.1 m.2 ms)
    [("type", .text r.check)])

def toJson (r : Request) : Json :=
  .object [("check_type", .text r.check), ("parameters", .object r.parameters)]

def same (r s : Request) : Bool :=
  r.check == s.check && Json.sameMembers r.parameters s.parameters

end Request

namespace Entry

def toItem (globals : List (String × Json)) : Entry → Json
  | .request r => r.toItem globals
  | .malformed raw _ => raw

def same : Entry → Entry → Bool
  | .request r, .request s => r.same s
  | .malformed raw e, .malformed raw' e' =>
    raw.same raw' && e.fragment == e'.fragment && e.reason == e'.reason
  | _, _ => false

def sameAll : List Entry → List Entry → Bool
  | [], [] => true
  | x :: xs, y :: ys => x.same y && sameAll xs ys
  | _, _ => false

end Entry

namespace CheckSet

def same (s t : CheckSet) : Bool :=
  Json.sameMembers s.globals t.globals && Entry.sameAll s.entries t.entries

def toJson (s : CheckSet) : Json :=
  .object (Json.insert "checks" (.list (s.entries.map (Entry.toItem s.globals))) s.globals)

def write (s : CheckSet) : String :=
  s.toJson.compact

def digest (s : CheckSet) : String :=
  Digest.ofText s.write

end CheckSet

end ModelAudit

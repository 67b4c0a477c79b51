import ModelAudit.Spec.Basic
import ModelAudit.Document.Basic
import ModelAudit.Activity.Basic

namespace ModelAudit

inductive Checker where
  | symbolic
  | concrete
deriving DecidableEq, Repr, Inhabited

namespace Checker

def producesTraces : Checker → Bool
  | symbolic => true
  | concrete => false

def text : Checker → String
  | symbolic => "symbolic"
  | concrete => "concrete"

def ofText? (s : String) : Option Checker :=
  if s = symbolic.text then some symbolic else if s = concrete.text then some concrete else none

def unknown (s : String) : String :=
  "unknown checker type '" ++ s ++ "'"

def parameterName : String := "checker"

-- A choice that is no text counts as none, and without a choice the checker is the symbolic one.
def ofRequest (r : Request) : Except AuditError Checker :=
  match r.text? parameterName with
  | none => .ok symbolic
  | some s =>
    match ofText? s with
    | some c => .ok c
    | none => .error (.check r.check (unknown s))

theorem ofText?_text (c : Checker) : ofText? c.text = some c := by
  cases c <;> decide

end Checker

inductive Parameter.Kind where
  | text
  | checker
deriving DecidableEq, Repr

structure Parameter where
  name : String
  description : String
  kind : Parameter.Kind
  required : Bool
deriving DecidableEq, Repr

def Parameter.checker : Parameter where
  name := Checker.parameterName
  description := "Checker type"
  kind := .checker
  required := false

structure Context where
  document : Document
  request : Request
  checker : Checker

namespace Context

def attachTrace (c : Context) (r : Record) (trace : Trace) : Record :=
  if c.checker.producesTraces then { r with trace := some (.displaying trace) } else r

end Context

structure Check where
  name : String
  shortName : String
  parameters : List Parameter := [.checker]
  run : Context → Checking Record

def qualified (t : Template) (location : String) : String :=
  t.name ++ "." ++ location

end ModelAudit

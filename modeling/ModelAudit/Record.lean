import ModelAudit.Registry.Action
import ModelAudit.Error

namespace ModelAudit

structure Record where
  check : String
  message : String
  satisfied : Bool
  trace : Option Action := none
deriving DecidableEq, Repr

structure Record.Summary where
  check : String
  message : String
  satisfied : Bool
  hasTrace : Bool
deriving DecidableEq, Repr

namespace Record

def specificationLabel : String := "specification"

def runnerLabel : String := "runner"

def passed (check message : String) : Record where
  check := check
  message := message
  satisfied := true

def violated (check message : String) : Record where
  check := check
  message := message
  satisfied := false

def ofError (check : String) (e : AuditError) : Record :=
  violated check e.message

def hasTrace (r : Record) : Bool :=
  r.trace.isSome

def summary (r : Record) : Summary :=
  ⟨r.check, r.message, r.satisfied, r.hasTrace⟩

def overall (records : List Record) : Bool :=
  records.all (·.satisfied)

def describeFlag (b : Bool) : String :=
  if b then "true" else "false"

def describe (r : Record) : String :=
  "ResultRecord \x7b check: " ++ Text.quoted r.check ++ ", message: " ++ Text.quoted r.message ++
    ", satisfied: " ++ describeFlag r.satisfied ++ ", has_trace: " ++ describeFlag r.hasTrace ++
    " \x7d"

namespace Summary

open Json (Layout readText readFlag)

def layout : Layout Summary where
  title := "struct RecordSummary"
  blank := ⟨"", "", false, false⟩
  fields :=
    [⟨"check", true, (fun x s => { s with check := x }) <$> readText⟩,
      ⟨"message", true, (fun x s => { s with message := x }) <$> readText⟩,
      ⟨"satisfied", true, (fun x s => { s with satisfied := x }) <$> readFlag⟩,
      ⟨"has_trace", true, (fun x s => { s with hasTrace := x }) <$> readFlag⟩]

def members (s : Summary) : List (String × Json) :=
  [("check", .text s.check), ("message", .text s.message), ("satisfied", .bool s.satisfied),
    ("has_trace", .bool s.hasTrace)]

def toJson (s : Summary) : Json :=
  .object s.members

end Summary

theorem overall_iff {records : List Record} :
    overall records = true ↔ ∀ r ∈ records, r.satisfied = true := by
  simp [overall]

end Record

end ModelAudit

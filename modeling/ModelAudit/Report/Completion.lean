import ModelAudit.Orchestrator.Event
import ModelAudit.Report.Listing

namespace ModelAudit

structure Stamp where
  run : String
  -- In milliseconds.
  duration : Nat
  finished : String
deriving DecidableEq, Repr

namespace Published

def line (index : Nat) (p : Published) : String :=
  ordinal index ++ mark p.record.satisfied ++ " " ++ p.record.check ++ ": " ++ p.record.message ++
    (match p.token with | some t => " (trace: " ++ t.text ++ ")" | none => "") ++ "\n"

def toJson (p : Published) : Json :=
  .object (p.record.summary.members ++
    [("trace_token", match p.token with | some t => .text t.text | none => .null)])

end Published

namespace Completion

def shortDigest (c : Completion) : String :=
  match c.digest with
  | some d => String.ofList (d.toList.take 12)
  | none => "unparsed"

def heading (stamp : Stamp) (c : Completion) : String :=
  "Run " ++ stamp.run ++ " (spec " ++ c.shortDigest ++ ")\n"

def verdict (stamp : Stamp) (c : Completion) : String :=
  "Overall: " ++ mark c.overall ++ (if c.overall then " PASSED" else " FAILED") ++ " (" ++
    Text.natural c.failedCount ++ "/" ++ Text.natural c.results.length ++ " checks failed, " ++
    Text.natural stamp.duration ++ "ms)\n"

def renderText (stamp : Stamp) (c : Completion) : String :=
  c.heading stamp ++ String.join (c.results.mapIdx Published.line) ++ "\n" ++ c.verdict stamp

def toJson (stamp : Stamp) (c : Completion) : Json :=
  .object
    [("run_id", .text stamp.run),
      ("spec_digest", match c.digest with | some d => .text d | none => .null),
      ("overall_satisfied", .bool c.overall),
      ("duration_ms", .number (.int stamp.duration)),
      ("finished_at", .text stamp.finished),
      ("results", .list (c.results.map Published.toJson))]

end Completion

end ModelAudit

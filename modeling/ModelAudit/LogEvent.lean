import ModelAudit.Json.Value

namespace ModelAudit

inductive LogEvent.Level where
  | info
  | warning
deriving DecidableEq, Repr

inductive LogEvent where
  | runStarted (run : String) (generation : Nat) (digest : Option String) (checks : Nat)
  | checkFinished (check : String) (satisfied hasTrace : Bool)
  | cancelRequested (run : String)
  | runCompleted (run : String) (results : Nat) (satisfied : Bool)
  | runCancelled (run : String) (discarded : Nat)
  | runnerFailed (run error : String)
  | traceInvoked (token : String)
  | staleToken (token : String)
  | traceShown (template : String) (steps : Nat)
deriving DecidableEq, Repr

namespace LogEvent

def name : LogEvent → String
  | runStarted .. => "run.started"
  | checkFinished .. => "check.finished"
  | cancelRequested .. => "run.cancel_requested"
  | runCompleted .. => "run.completed"
  | runCancelled .. => "run.cancelled"
  | runnerFailed .. => "run.runner_failed"
  | traceInvoked .. => "trace.invoked"
  | staleToken .. => "trace.stale_token"
  | traceShown .. => "trace.shown"

def level : LogEvent → Level
  | runnerFailed .. => .warning
  | staleToken .. => .warning
  | _ => .info

def count (n : Nat) : Json :=
  .number (.int n)

def fields : LogEvent → List (String × Json)
  | runStarted run generation digest checks =>
    [("run_id", .text run), ("generation", count generation),
      ("spec_digest", .text (digest.getD "<unparsed>")), ("checks", count checks)]
  | checkFinished check satisfied hasTrace =>
    [("check", .text check), ("satisfied", .bool satisfied), ("has_trace", .bool hasTrace)]
  | cancelRequested run => [("run_id", .text run)]
  | runCompleted run results satisfied =>
    [("run_id", .text run), ("results", count results), ("satisfied", .bool satisfied)]
  | runCancelled run discarded => [("run_id", .text run), ("discarded", count discarded)]
  | runnerFailed run error => [("run_id", .text run), ("error", .text error)]
  | traceInvoked token => [("token", .text token)]
  | staleToken token => [("token", .text token)]
  | traceShown template steps => [("template", .text template), ("steps", count steps)]

end LogEvent

end ModelAudit

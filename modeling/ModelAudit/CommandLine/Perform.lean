import ModelAudit.CommandLine.Command
import ModelAudit.CommandLine.Failure
import ModelAudit.CommandLine.Files
import ModelAudit.Report.Completion
import ModelAudit.Session.Await

namespace ModelAudit.CommandLine

inductive Result where
  | reported (format : Format) (completion : Completion)
  | printed (text : String)
  | failed (printed : String) (failure : Failure)
  | cancelled
  | crashed

structure Outcome where
  code : Nat
  output : String := ""
  errors : String := ""
deriving DecidableEq, Repr

namespace Outcome

def failureCode : Nat := 1

def usageCode : Nat := 2

def crashCode : Nat := 101

def cancelCode : Nat := 130

end Outcome

def report (stamp : Stamp) (c : Completion) : Format → String
  | .text => c.renderText stamp
  | .json => (c.toJson stamp).pretty ++ "\n"

def Result.outcome (stamp : Stamp) : Result → Outcome
  | reported format completion =>
    { code := if completion.overall then 0 else Outcome.failureCode
      output := report stamp completion format }
  | printed text => { code := 0, output := text }
  | failed text failure =>
    { code := Outcome.failureCode, output := text, errors := failure.render }
  | cancelled => { code := Outcome.cancelCode, errors := "Run cancelled\n" }
  | crashed => { code := Outcome.crashCode }

def readText (files : Files) (kind path : String) : Except Result String :=
  (files path).mapError fun e =>
    .failed "" { context := "Failed to read " ++ kind ++ " " ++ path, causes := [e.message] }

-- The cause is told twice, with its kind and without.
def invalidModel (path : String) (e : Json.ReadError) : Failure where
  context := "Failed to parse model " ++ path
  causes := [(AuditError.unreadable e).message, e.message]

def orchestrator (config : Config) : Orchestrator where
  runner := Catalog.builtin.runner
  config := config
  display := .printed

def openSession (files : Files) (config : Config) (model : String) (specification : Option String) :
    Except Result Session.State := do
  let text ← readText files "model" model
  match Document.read text with
  | .error e => throw (.failed "" (invalidModel model e))
  | .ok document =>
    match Session.initial (orchestrator config) document with
    | .error _ => throw .crashed
    | .ok session =>
      match specification with
      | none => return session
      | some path => return session.setSpecText (← readText files "specification" path)

def runOnce (config : Config) (session : Session.State) : Session.Awaited :=
  (Session.Awaited.begin session .button).finish (orchestrator config)

def noRecord (index total : Nat) : Failure where
  context :=
    "No result #" ++ Text.natural index ++ "; the run produced " ++ Text.natural total ++
      " result(s)"

def noTrace (index : Nat) (check : String) : Failure where
  context := "Result #" ++ Text.natural index ++ " (" ++ check ++ ") has no trace"

def answerResult (text : String) (token : Token) : Registry.Answer → Result
  | .done => .printed text
  | .stale t =>
    .failed text
      { context := "Failed to show " ++ token.text, causes := [(AuditError.staleToken t).message] }
  | .panicked _ => .crashed

def showTrace (config : Config) (session : Orchestrator.State) (p : Published) (index : Nat) :
    Result :=
  match p.token with
  | none => .failed "" (noTrace index p.record.check)
  | some token =>
    let (answer, after) := session.invoke (orchestrator config) token
    let traces := (after.deeds.drop session.deeds.length).filterMap Deed.displayed?
    answerResult
      (p.record.check ++ ": " ++ p.record.message ++ "\n" ++
        String.join (traces.map Trace.display)) token answer

def malformedEntries (count : Nat) : Failure where
  context :=
    Text.natural count ++ " malformed check entr" ++ (if count = 1 then "y" else "ies")

-- Malformed entries are listed with the others, and make the command fail in the end.
def validate (path text : String) : Result :=
  match CheckSet.parse text with
  | .error e =>
    .failed "" { context := "Invalid specification " ++ path, causes := [e.message] }
  | .ok s =>
    if s.malformedCount = 0 then .printed s.listing
    else .failed s.listing (malformedEntries s.malformedCount)

namespace Command

def ofRun (w : Session.Awaited) (f : Completion → Result) : Result :=
  match w.waiting with
  | .ended (some completion) => f completion
  | _ => .cancelled

def perform (files : Files) (config : Config) : Command → Result
  | run model specification format =>
    match openSession files config model specification with
    | .error result => result
    | .ok session => ofRun (runOnce config session) (.reported format)
  | trace model specification index =>
    match openSession files config model specification with
    | .error result => result
    | .ok session =>
      let w := runOnce config session
      ofRun w fun completion =>
        match (if index = 0 then none else completion.results[index - 1]?) with
        | none => .failed "" (noRecord index completion.results.length)
        | some p => showTrace config w.state.orchestrator p index
  | checks => .printed Catalog.builtin.listing
  | validate specification =>
    match readText files "specification" specification with
    | .error result => result
    | .ok text => CommandLine.validate specification text

end Command

end ModelAudit.CommandLine

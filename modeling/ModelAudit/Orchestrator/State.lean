import ModelAudit.Orchestrator.Event
import ModelAudit.Orchestrator.Shared
import ModelAudit.Channel
import ModelAudit.Cancel
import ModelAudit.Config
import ModelAudit.Registry.Invoke
import ModelAudit.Runner.Basic
import ModelAudit.Spec.Canonical

namespace ModelAudit

structure Orchestrator where
  runner : Runner
  config : Config := {}
  display : Display := .kept

namespace Orchestrator

inductive Phase where
  | idle
  | running
  | cancelling
deriving DecidableEq, Repr

structure Active where
  run : RunId
  generation : Nat
  signal : Signal
deriving DecidableEq, Repr

inductive Outcome where
  | finished (records : List Record)
  | cancelled (discarded : Nat)
deriving DecidableEq, Repr

-- Between any two steps somebody may start a run.
inductive Stage where
  -- The next step is to take the findings of former runs out of the problem list.
  | launched
  -- The next step is to enter the runner, if there are checks to run.
  | cleared
  | checking (work : Activity (Except AuditError Unit)) (records : List Record)
  -- The next step is a last look at the flag.
  | ended (outcome : Outcome)
  -- The next step is to publish what came out.
  | settled (outcome : Outcome)

structure Task where
  run : RunId
  generation : Nat
  signal : Signal
  spec : Except SpecError CheckSet
  digest : Option String
  document : Document
  stage : Stage := .launched

inductive StartOutcome where
  | started (run : RunId)
  | cancelRequested (run : RunId)
  | alreadyCancelling
deriving DecidableEq, Repr

structure State where
  phase : Phase := .idle
  generation : Nat := 0
  active : Option Active := none
  -- The run that the next call to join waits for.
  handle : Option RunId := none
  published : List Token := []
  last : Option Completion := none
  signals : Signals := {}
  tasks : List Task := []
  shared : Shared := {}
  channel : Channel RunEvent
  log : List LogEvent := []
  launches : Nat := 0
  entered : List RunId := []
  -- The largest number of runs that were in the runner at the same time.
  peak : Nat := 0
  interrupted : List RunId := []
  permits : Nat := 0
  -- What pressing the button from within a run did.
  presses : List StartOutcome := []
  deeds : List Deed := []

-- There is no state if the channel cannot be that large.
def initial (o : Orchestrator) : Except Channel.Refusal State :=
  (Channel.create (max 1 o.config.eventCapacity)).map fun channel => { channel := channel }

namespace State

def task? (s : State) (run : RunId) : Option Task :=
  s.tasks.find? (·.run == run)

def toStage (s : State) (run : RunId) (stage : Stage) : State :=
  { s with tasks := s.tasks.map fun t => if t.run = run then { t with stage := stage } else t }

def endTask (s : State) (run : RunId) : State :=
  { s with tasks := s.tasks.filter (·.run != run) }

def emit (s : State) (event : LogEvent) : State :=
  { s with log := s.log ++ [event] }

def send (s : State) (event : RunEvent) : State :=
  { s with channel := s.channel.send event }

def inside (s : State) : Nat :=
  s.tasks.countP fun t =>
    match t.stage with
    | .checking .. => true
    | _ => false

def isRunning (s : State) : Bool :=
  s.phase != .idle

theorem task?_toStage (s : State) (run : RunId) (stage : Stage) :
    (s.toStage run stage).task? run = (s.task? run).map fun t => { t with stage := stage } := by
  simp only [task?, toStage]
  induction s.tasks with
  | nil => rfl
  | cons t ts ih =>
    by_cases h : t.run = run
    · simp [h]
    · simp [h, ih]

theorem task?_endTask (s : State) (run : RunId) : (s.endTask run).task? run = none := by
  simp [task?, endTask, List.find?_eq_none]

end State

end Orchestrator

end ModelAudit

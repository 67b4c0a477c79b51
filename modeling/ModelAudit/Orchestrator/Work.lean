import ModelAudit.Orchestrator.Start
import ModelAudit.Orchestrator.Publish

namespace ModelAudit.Orchestrator

def failureOf (e : AuditError) : AuditError :=
  .run e.message

def failureOfPanic (message : Option String) : AuditError :=
  .run ("panicked: " ++ Activity.panicMessage message)

namespace State

def clearFindings (s : State) : State :=
  { s with shared := { s.shared with problems := s.shared.problems.remove .sanity } }

def fail (s : State) (run : RunId) (e : AuditError) : State :=
  (s.emit (.runnerFailed run.text e.message)).toStage run
    (.ended (.finished [.ofError Record.runnerLabel e]))

def enter (o : Orchestrator) (s : State) (t : Task) (spec : CheckSet) : State :=
  let s := s.toStage t.run (.checking (o.runner spec t.document) [])
  { s with entered := s.entered ++ [t.run], peak := max s.peak s.inside }

def work? (s : State) (t : Task) (records : List Record) :
    Activity (Except AuditError Unit) → Option State
  | .done (.ok ()) => some (s.toStage t.run (.ended (.finished records)))
  | .done (.error .cancelled) => some (s.toStage t.run (.ended (.cancelled records.length)))
  | .done (.error e) => some (s.fail t.run (failureOf e))
  | .panic message => some (s.fail t.run (failureOfPanic message))
  | .poll next =>
    some (s.toStage t.run (.checking (next (decide (s.signals.IsRaised t.signal))) records))
  | .press next => some (s.toStage t.run (.checking next records)).press
  | .emit event next => some ((s.emit event).toStage t.run (.checking next records))
  | .deliver record next =>
    some ((s.send (.progress t.run (records.length + 1) record.check)).toStage t.run
      (.checking next (records ++ [record])))
  | .gate heedsFlag passed stopped =>
    if 0 < s.permits then
      some ({ s with permits := s.permits - 1 }.toStage t.run (.checking passed records))
    else if heedsFlag ∧ s.signals.IsRaised t.signal then
      some (s.toStage t.run (.checking stopped records))
    else none

def lastLook (s : State) (t : Task) : Outcome → Outcome
  | .finished records =>
    if s.signals.IsRaised t.signal then .cancelled records.length else .finished records
  | .cancelled discarded => .cancelled discarded

def step? (o : Orchestrator) (visits : Visits) (s : State) (t : Task) : Option State :=
  match t.stage with
  | .launched => some (s.clearFindings.toStage t.run .cleared)
  | .cleared =>
    match t.spec with
    | .error e =>
      some (s.toStage t.run
        (.ended (.finished [.violated Record.specificationLabel e.message])))
    | .ok spec => some (s.enter o t spec)
  | .checking work records => s.work? t records work
  | .ended outcome => some (s.toStage t.run (.settled (s.lastLook t outcome)))
  | .settled outcome => some (s.finish o visits t outcome)

-- There is no next step for work that waits at a gate or is no longer in flight.
def advance? (o : Orchestrator) (visits : Visits) (s : State) (run : RunId) : Option State :=
  (s.task? run).bind (s.step? o visits)

end State

def workSize {α : Type} : Activity α → Nat
  | .done _ => 1
  | .panic _ => 1
  | .poll next => max (workSize (next false)) (workSize (next true)) + 1
  | .press next => workSize next + 1
  | .emit _ next => workSize next + 1
  | .deliver _ next => workSize next + 1
  | .gate _ passed stopped => max (workSize passed) (workSize stopped) + 1

def Task.stepsLeft (o : Orchestrator) (t : Task) : Nat :=
  let all := match t.spec with
    | .ok spec => workSize (o.runner spec t.document)
    | .error _ => 0
  match t.stage with
  | .launched => all + 4
  | .cleared => all + 3
  | .checking work _ => workSize work + 2
  | .ended _ => 2
  | .settled _ => 1

namespace State

def stepsLeft (o : Orchestrator) (s : State) (run : RunId) : Nat :=
  ((s.task? run).map (Task.stepsLeft o)).getD 0

theorem stepsLeft_toStage (o : Orchestrator) {s : State} {run : RunId} {t : Task}
    (h : s.task? run = some t) (stage : Stage) :
    (s.toStage run stage).stepsLeft o run = Task.stepsLeft o { t with stage } := by
  simp [stepsLeft, task?_toStage, h]

theorem run_of_task? {s : State} {run : RunId} {t : Task} (h : s.task? run = some t) :
    t.run = run := by
  simpa using List.find?_some h

theorem stepsLeft_lt_of_work? {o : Orchestrator} {s s' : State} {run : RunId} {t : Task}
    {work : Activity (Except AuditError Unit)} {records : List Record} (ht : s.task? run = some t)
    (h : s.work? t records work = some s') : s'.stepsLeft o run < workSize work + 2 := by
  obtain rfl := run_of_task? ht
  have key (s₁ : State) (h₁ : s₁.task? t.run = some t) (stage : Stage) :
      (s₁.toStage t.run stage).stepsLeft o t.run = Task.stepsLeft o { t with stage } :=
    stepsLeft_toStage o h₁ stage
  cases work with
  | done result =>
    cases result with
    | ok => cases h; simp [key s ht, Task.stepsLeft, workSize]
    | error e =>
      have : s'.stepsLeft o t.run = 2 := by
        cases e <;> cases h
        case cancelled => exact key s ht _
        all_goals exact key (s.emit _) ht _
      simp [this, workSize]
  | panic message =>
    cases h
    have : (s.fail t.run (failureOfPanic message)).stepsLeft o t.run = 2 := key (s.emit _) ht _
    simp [this, workSize]
  | poll next =>
    cases h
    rw [key s ht]
    simp only [Task.stepsLeft, workSize]
    cases decide (s.signals.IsRaised t.signal) <;> omega
  | press next =>
    cases h
    have hpress : (s.toStage t.run (.checking next records)).press.task? t.run =
        some { t with stage := .checking next records } :=
      task?_press (by simp [task?_toStage, ht])
    simp [stepsLeft, hpress, Task.stepsLeft, workSize]
  | emit event next => cases h; simp [key (s.emit _) ht, Task.stepsLeft, workSize]
  | deliver record next => cases h; simp [key (s.send _) ht, Task.stepsLeft, workSize]
  | gate heedsFlag passed stopped =>
    simp only [work?] at h
    split at h
    · cases h
      rw [key { s with permits := s.permits - 1 } ht]
      simp only [Task.stepsLeft, workSize]
      omega
    · split at h
      · cases h
        rw [key s ht]
        simp only [Task.stepsLeft, workSize]
        omega
      · cases h

theorem stepsLeft_lt_of_advance? {o : Orchestrator} {visits : Visits} {s s' : State} {run : RunId}
    (h : s.advance? o visits run = some s') : s'.stepsLeft o run < s.stepsLeft o run := by
  obtain ⟨t, ht, hs⟩ := Option.bind_eq_some_iff.1 h
  obtain rfl := run_of_task? ht
  have hleft : s.stepsLeft o t.run = t.stepsLeft o := by simp [stepsLeft, ht]
  rw [hleft]
  unfold step? at hs
  split at hs
  · rename_i hstage
    cases hs
    have : (s.clearFindings.toStage t.run .cleared).stepsLeft o t.run =
        Task.stepsLeft o { t with stage := .cleared } :=
      @stepsLeft_toStage o s.clearFindings _ _ ht _
    simp [this, Task.stepsLeft, hstage]
  · rename_i hstage
    split at hs
    · rename_i hspec
      cases hs
      rw [stepsLeft_toStage o ht]
      simp [Task.stepsLeft, hstage]
    · rename_i spec hspec
      cases hs
      have : (s.enter o t spec).stepsLeft o t.run =
          Task.stepsLeft o { t with stage := .checking (o.runner spec t.document) [] } :=
        stepsLeft_toStage o ht _
      simp [this, Task.stepsLeft, hstage, hspec]
  · rename_i work records hstage
    have := stepsLeft_lt_of_work? (o := o) ht hs
    simpa [Task.stepsLeft, hstage] using this
  · rename_i hstage
    cases hs
    rw [stepsLeft_toStage o ht]
    simp [Task.stepsLeft, hstage]
  · rename_i outcome hstage
    cases hs
    have : (s.finish o visits t outcome).stepsLeft o t.run = 0 := by
      simp [stepsLeft, task?_finish]
    simp [this, Task.stepsLeft, hstage]

-- Goes on with the work of a run, nobody interfering, until it is done or waits at a gate.
def settle (o : Orchestrator) (s : State) (run : RunId) : State :=
  match h : s.advance? o [] run with
  | none => s
  | some s' =>
    have := stepsLeft_lt_of_advance? h
    settle o s' run
termination_by s.stepsLeft o run

def settleAll (o : Orchestrator) (s : State) : State :=
  (s.tasks.map (·.run)).foldl (settle o) s

-- Nothing is waited for if somebody else has taken the run.
def join (o : Orchestrator) (s : State) : State :=
  let (run?, s) := s.takeHandle
  match run? with
  | some run => s.settle o run
  | none => s

def invoke (o : Orchestrator) (s : State) (token : Token) : Registry.Answer × State :=
  let outcome := s.shared.registry.invoke token
  (outcome.answer, { s with
    shared := { s.shared with registry := outcome.registry }
    log := s.log ++ outcome.deeds.flatMap (Deed.log o.display)
    deeds := s.deeds ++ outcome.deeds })

def visit (s : State) (v : Visit) : State :=
  { s with shared := s.shared.visit v }

def release (s : State) : State :=
  { s with permits := s.permits + 1 }

end State

def Phase.describe : Phase → String
  | idle => "Idle"
  | running => "Running"
  | cancelling => "Cancelling"

def describe (o : Orchestrator) (s : State) : String :=
  "Orchestrator \x7b state: " ++ s.phase.describe ++ ", config: " ++ o.config.describe ++ " \x7d"

end ModelAudit.Orchestrator

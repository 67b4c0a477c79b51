import ModelAudit.Proofs.Orchestrator.Chronicle

namespace ModelAudit.Orchestrator

structure Lifecycle where
  phase : Phase
  generation : Nat
  active : Option Active
  signals : Signals
  tasks : List Task
  sent : List RunEvent
  last : Option Completion
  launches : Nat
  peak : Nat

def State.lifecycle (s : State) : Lifecycle where
  phase := s.phase
  generation := s.generation
  active := s.active
  signals := s.signals
  tasks := s.tasks
  sent := s.channel.sent
  last := s.last
  launches := s.launches
  peak := s.peak

namespace Lifecycle

def task? (l : Lifecycle) (run : RunId) : Option Task :=
  l.tasks.find? (·.run == run)

def toStage (l : Lifecycle) (run : RunId) (stage : Stage) : Lifecycle :=
  { l with tasks := l.tasks.map fun t => if t.run = run then { t with stage := stage } else t }

def endTask (l : Lifecycle) (run : RunId) : Lifecycle :=
  { l with tasks := l.tasks.filter (·.run != run) }

def inside (l : Lifecycle) : Nat :=
  l.tasks.countP fun t =>
    match t.stage with
    | .checking .. => true
    | _ => false

def raiseActive (l : Lifecycle) : Lifecycle :=
  match l.active with
  | some a => { l with signals := l.signals.raise a.signal }
  | none => l

section RaiseActive

variable (l : Lifecycle)

theorem tasks_raiseActive : l.raiseActive.tasks = l.tasks := by
  cases h : l.active <;> simp [raiseActive, h]

theorem sent_raiseActive : l.raiseActive.sent = l.sent := by
  cases h : l.active <;> simp [raiseActive, h]

theorem launches_raiseActive : l.raiseActive.launches = l.launches := by
  cases h : l.active <;> simp [raiseActive, h]

theorem isRaised_raiseActive {l : Lifecycle} {x : Signal} (h : l.signals.IsRaised x) :
    l.raiseActive.signals.IsRaised x := by
  cases ha : l.active
  case none => simpa [raiseActive, ha] using h
  case some => simpa [raiseActive, ha] using Signals.isRaised_raise.mpr <| .inr h

end RaiseActive

-- The work of the run that is launched next.
def nextTask (l : Lifecycle) (text : String) (document : Document) : Task where
  run := ⟨l.launches + 1⟩
  generation := l.generation + 1
  signal := l.signals.issue.1
  spec := CheckSet.parse text
  digest := (CheckSet.parse text).toOption.map CheckSet.digest
  document := document

def launch (l : Lifecycle) (t : Task) : Lifecycle :=
  { l with
    phase := .running
    generation := t.generation
    active := some ⟨t.run, t.generation, t.signal⟩
    signals := l.signals.issue.2
    tasks := l.tasks ++ [t]
    sent := l.sent ++ [.started t.run t.digest]
    launches := l.launches + 1 }

-- How the button answers, and what becomes of the lifecycle.
inductive Answers (l : Lifecycle) : StartOutcome → Lifecycle → Prop
  | launch {text document} (h : l.phase = .idle) :
    l.Answers (.started ⟨l.launches + 1⟩) (l.launch (l.nextTask text document))
  | request (h : l.phase = .running) :
    l.Answers (.cancelRequested ((l.active.map (·.run)).getD .none))
      { l.raiseActive with phase := .cancelling }
  | ignore (h : l.phase = .cancelling) : l.Answers .alreadyCancelling l

end Lifecycle

-- How the work of a run gets to its next stage without touching anything else, given the signals that
-- are raised at that moment. Along with the stage there are the incidents of the step and the events
-- that are sent in it.
inductive Task.Moves (o : Orchestrator) (signals : Signals) (t : Task) :
    List Incident → List RunEvent → Stage → Prop
  | clear (h : t.stage = .launched) : t.Moves o signals [] [] .cleared
  | refuse {e} (h : t.stage = .cleared) (hs : t.spec = .error e) :
    t.Moves o signals [] [] (.ended (.finished [.violated Record.specificationLabel e.message]))
  | enter {spec} (h : t.stage = .cleared) (hs : t.spec = .ok spec) :
    t.Moves o signals [] [] (.checking (o.runner spec t.document) [])
  | poll {next records} (h : t.stage = .checking (.poll next) records) :
    t.Moves o signals [] [] (.checking (next (decide (signals.IsRaised t.signal))) records)
  | emit {event next records} (h : t.stage = .checking (.emit event next) records) :
    t.Moves o signals [] [] (.checking next records)
  | deliver {record next records} (h : t.stage = .checking (.deliver record next) records) :
    t.Moves o signals [.delivered t.run record]
      [.progress t.run (records.length + 1) record.check] (.checking next (records ++ [record]))
  | pass {heedsFlag passed stopped records}
    (h : t.stage = .checking (.gate heedsFlag passed stopped) records) :
    t.Moves o signals [] [] (.checking passed records)
  | stop {passed stopped records} (h : t.stage = .checking (.gate true passed stopped) records)
    (hr : signals.IsRaised t.signal) : t.Moves o signals [] [] (.checking stopped records)
  | finish {records} (h : t.stage = .checking (.done (.ok ())) records) :
    t.Moves o signals [.returned t.run (.ok ())] [] (.ended (.finished records))
  | cancel {records} (h : t.stage = .checking (.done (.error .cancelled)) records) :
    t.Moves o signals [.returned t.run (.error .cancelled)] [] (.ended (.cancelled records.length))
  | fail {e records} (h : t.stage = .checking (.done (.error e)) records) (he : e ≠ .cancelled) :
    t.Moves o signals [.returned t.run (.error e)] []
      (.ended (.finished [.ofError Record.runnerLabel (failureOf e)]))
  | panic {message records} (h : t.stage = .checking (.panic message) records) :
    t.Moves o signals [] []
      (.ended (.finished [.ofError Record.runnerLabel (failureOfPanic message)]))
  | approve {records} (h : t.stage = .ended (.finished records)) (hr : ¬signals.IsRaised t.signal) :
    t.Moves o signals [] [] (.settled (.finished records))
  | discard {records} (h : t.stage = .ended (.finished records)) (hr : signals.IsRaised t.signal) :
    t.Moves o signals [] [] (.settled (.cancelled records.length))
  | settle {discarded} (h : t.stage = .ended (.cancelled discarded)) :
    t.Moves o signals [] [] (.settled (.cancelled discarded))

namespace Lifecycle

-- What a step of a history does.
inductive Step (o : Orchestrator) (l : Lifecycle) : List Incident → Lifecycle → Prop
  | rest : l.Step o [] l
  | start {outcome l'} (h : l.Answers outcome l') : l.Step o [.answered outcome] l'
  | move {t facts events stage peak} (ht : l.task? t.run = some t)
    (hm : t.Moves o l.signals facts events stage)
    (hp : peak ≤ max l.peak (l.toStage t.run stage).inside) :
    l.Step o facts { l.toStage t.run stage with sent := l.sent ++ events, peak := peak }
  | press {t next records outcome l'} (ht : l.task? t.run = some t)
    (hs : t.stage = .checking (.press next) records)
    (h : (l.toStage t.run (.checking next records)).Answers outcome l') :
    l.Step o [.answered outcome] l'
  | complete {t records completion} (ht : l.task? t.run = some t)
    (hs : t.stage = .settled (.finished records)) (hg : l.generation = t.generation)
    (hr : completion.run = t.run) (hc : completion.records = records) :
    l.Step o []
      { l.endTask t.run with
        phase := .idle, active := none, last := some completion
        sent := l.sent ++ [.completed completion] }
  | cancel {t discarded} (ht : l.task? t.run = some t)
    (hs : t.stage = .settled (.cancelled discarded)) (hg : l.generation = t.generation) :
    l.Step o []
      { l.endTask t.run with
        phase := .idle, active := none, sent := l.sent ++ [.cancelled t.run] }
  | lapse {t outcome} (ht : l.task? t.run = some t) (hs : t.stage = .settled outcome)
    (hg : l.generation ≠ t.generation) : l.Step o [] (l.endTask t.run)
  | abandon : l.Step o [.abandoned] l.raiseActive

end Lifecycle

namespace State

variable {o : Orchestrator} {s s' : State} {t : Task}

theorem lifecycle_requestCancel (s : State) :
    s.requestCancel.2.lifecycle = { s.lifecycle.raiseActive with phase := .cancelling } := by
  simp only [requestCancel, Lifecycle.raiseActive, lifecycle]
  cases s.active <;> rfl

theorem lifecycle_abandon (s : State) : s.abandon.lifecycle = s.lifecycle.raiseActive := by
  cases ha : s.active <;> simp [abandon, Lifecycle.raiseActive, lifecycle, ha]

-- The specification of the run is not looked at, which is why this is not left to evaluation.
theorem lifecycle_launch (s : State) (text : String) (document : Document) :
    (s.launch text document).2.lifecycle =
      s.lifecycle.launch (s.lifecycle.nextTask text document) := by
  simp only [launch, Lifecycle.launch, Lifecycle.nextTask, lifecycle, emit, send, Channel.send,
    Signals.issue]

theorem start_answers (s : State) (text : String) (document : Document) :
    s.lifecycle.Answers (s.start text document).1 (s.start text document).2.lifecycle := by
  cases hp : s.phase
  case idle =>
    simp only [start, hp, lifecycle_launch]
    exact .launch hp
  case running =>
    simp only [start, hp, lifecycle_requestCancel]
    exact .request hp
  case cancelling =>
    rw [start, hp]
    exact .ignore hp

theorem start_toStage (s : State) (run : RunId) (stage : Stage) (text : String)
    (document : Document) :
    ((s.toStage run stage).start text document).1 = (s.start text document).1 := by
  simp only [start, toStage]
  split <;> rfl

-- A step that leaves everything but the stage of the task and what is logged as it is.
theorem move_step {facts : List Incident} {stage : Stage} (ht : s.task? t.run = some t)
    (hm : t.Moves o s.signals facts [] stage) (hs : s'.lifecycle = s.lifecycle.toStage t.run stage) :
    s.lifecycle.Step o facts s'.lifecycle := by
  have h := Lifecycle.Step.move (l := s.lifecycle) ht hm (Nat.le_max_left _ _)
  simp only [List.append_nil] at h
  exact hs ▸ h

theorem work_step {records : List Record} {work : Activity (Except AuditError Unit)}
    (ht : s.task? t.run = some t) (hs : t.stage = .checking work records)
    (h : s.work? t records work = some s') : s.lifecycle.Step o (t.incidents s) s'.lifecycle := by
  cases work <;> simp only [Task.incidents, hs]
  case done result =>
    cases result
    case ok => cases h; exact move_step ht (.finish hs) rfl
    case error e =>
      cases e <;> cases h
      case cancelled => exact move_step ht (.cancel hs) rfl
      all_goals exact move_step ht (.fail hs nofun) rfl
  case panic => cases h; exact move_step ht (.panic hs) rfl
  case poll => cases h; exact move_step ht (.poll hs) rfl
  case press next =>
    cases h
    have hp := (s.toStage t.run (.checking next records)).start_answers "" { name := "toggle" }
    exact .press ht hs (start_toStage .. ▸ hp)
  case emit => cases h; exact move_step ht (.emit hs) rfl
  case deliver => cases h; exact .move ht (.deliver hs) (Nat.le_max_left _ _)
  case gate =>
    simp only [work?] at h
    split at h
    · cases h; exact move_step ht (.pass hs) rfl
    · split at h <;> cases h
      rename_i hr
      obtain ⟨rfl, hr⟩ := hr
      exact move_step ht (.stop hs hr) rfl

theorem task_step {visits : Visits} (ht : s.task? t.run = some t)
    (h : s.step? o visits t = some s') : s.lifecycle.Step o (t.incidents s) s'.lifecycle := by
  cases hs : t.stage <;> simp only [step?, hs] at h
  case checking => exact work_step ht hs h
  all_goals simp only [Task.incidents, hs]
  case launched => cases h; exact move_step ht (.clear hs) rfl
  case cleared =>
    cases hspec : t.spec <;> rw [hspec] at h <;> cases h
    case error => exact move_step ht (.refuse hs hspec) rfl
    case ok =>
      have hp := Lifecycle.Step.move (l := s.lifecycle) (o := o) ht (.enter hs hspec) (Nat.le_refl _)
      simp only [List.append_nil] at hp
      exact hp
  case ended outcome =>
    cases h
    cases outcome
    case cancelled => exact move_step ht (.settle hs) rfl
    case finished records =>
      simp only [lastLook]
      split
      case isTrue hr => exact move_step ht (.discard hs hr) rfl
      case isFalse hr => exact move_step ht (.approve hs hr) rfl
  case settled outcome =>
    cases h
    simp only [finish]
    split
    case isFalse hg => exact .lapse ht hs hg
    case isTrue hg =>
      cases outcome
      case cancelled => exact .cancel ht hs hg
      case finished => exact .complete ht hs hg rfl (map_record_register ..)

-- Only work that waits at a gate has no next step.
theorem incidents_eq_nil_of_step?_eq_none {visits : Visits} (h : s.step? o visits t = none) :
    t.incidents s = [] := by
  cases hs : t.stage <;> simp only [step?, hs] at h
  case cleared => cases hspec : t.spec <;> simp [hspec] at h
  case checking work records =>
    simp only [Task.incidents, hs]
    cases work <;> simp only [work?] at h
    case done result => rcases result with e | _ <;> (try cases e) <;> cases h
    all_goals first | rfl | cases h
  all_goals cases h

-- What a happening does to the lifecycle, and the incidents that come of it.
theorem after_step (o : Orchestrator) (s : State) (h : Happening) :
    s.lifecycle.Step o (s.incidents h) (s.after o h).lifecycle := by
  cases h
  case start text document => exact .start (s.start_answers text document)
  case work run visits =>
    simp only [after, incidents, advance?]
    cases ht : s.task? run
    case none => exact .rest
    case some t =>
      obtain rfl := run_of_task? ht
      simp only [Option.bind_some, Option.map_some, Option.getD_some]
      cases hs : s.step? o visits t
      case none => simpa [incidents_eq_nil_of_step?_eq_none hs] using .rest
      case some s' => exact task_step ht hs
  case abandon =>
    rw [after, lifecycle_abandon]
    exact .abandon
  all_goals exact .rest

end State

end ModelAudit.Orchestrator

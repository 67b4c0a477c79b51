import ModelAudit.Orchestrator.State

namespace ModelAudit.Orchestrator

namespace State

def requestCancel (s : State) : StartOutcome × State :=
  let run := (s.active.map (·.run)).getD .none
  let signals := match s.active with
    | some a => s.signals.raise a.signal
    | none => s.signals
  let s := { s with
    phase := .cancelling
    signals := signals
    interrupted := s.interrupted ++ [run] }
  (.cancelRequested run, s.emit (.cancelRequested run.text))

-- A specification that cannot be read is launched as well.
def launch (s : State) (text : String) (document : Document) : StartOutcome × State :=
  let spec := CheckSet.parse text
  let digest := spec.toOption.map CheckSet.digest
  let checks := (spec.toOption.map fun c => c.entries.length).getD 0
  let run : RunId := ⟨s.launches + 1⟩
  let generation := s.generation + 1
  let (signal, signals) := s.signals.issue
  let task : Task := { run, generation, signal, spec, digest, document }
  let s := { s with
    phase := .running
    generation := generation
    active := some ⟨run, generation, signal⟩
    handle := some run
    signals := signals
    tasks := s.tasks ++ [task]
    launches := s.launches + 1 }
  (.started run,
    (s.emit (.runStarted run.text generation digest checks)).send (.started run digest))

def start (s : State) (text : String) (document : Document) : StartOutcome × State :=
  match s.phase with
  | .cancelling => (.alreadyCancelling, s)
  | .running => s.requestCancel
  | .idle => s.launch text document

-- A run may press the button that started it. What that did is noted.
def press (s : State) : State :=
  let (outcome, s) := s.start "" { name := "toggle" }
  { s with presses := s.presses ++ [outcome] }

-- The owner goes, and the active run is asked to stop.
def abandon (s : State) : State :=
  match s.active with
  | some a => { s with signals := s.signals.raise a.signal }
  | none => s

def takeHandle (s : State) : Option RunId × State :=
  (s.handle, { s with handle := none })

theorem task?_press {s : State} {run : RunId} {t : Task} (h : s.task? run = some t) :
    s.press.task? run = some t := by
  have hfind : s.tasks.find? (·.run == run) = some t := h
  cases hp : s.phase <;>
    simp [press, start, hp, requestCancel, launch, emit, send, task?, List.find?_append, hfind]

end State

end ModelAudit.Orchestrator

import ModelAudit.Orchestrator.State

namespace ModelAudit.Orchestrator

def register (visits : Visits) (s : Shared) : List Record → List Published × Visits × Shared
  | [] => ([], visits, s)
  | r :: rs =>
    match r.trace with
    | none =>
      let (results, visits, s) := register visits s rs
      (⟨r, none⟩ :: results, visits, s)
    | some action =>
      let (token, registry) := (s.yield visits).registry.register action
      let (results, visits, s) := register visits.tail { s.yield visits with registry } rs
      (⟨r, some token⟩ :: results, visits, s)

def problemOf (r : Record) : Problem where
  origin := .sanity
  path := r.check
  description := r.message

def report (visits : Visits) (s : Shared) : List Problem → Shared
  | [] => s
  | p :: ps =>
    let s := s.yield visits
    report visits.tail { s with problems := s.problems.push p } ps

theorem map_record_register (visits : Visits) (s : Shared) (records : List Record) :
    (register visits s records).1.map (·.record) = records := by
  induction records generalizing visits s with
  | nil => rfl
  | cons r rs ih => cases ht : r.trace <;> simp [register, ht, ih]

namespace State

def complete (o : Orchestrator) (visits : Visits) (s : State) (t : Task) (records : List Record) :
    State :=
  let shared := s.shared.yield visits
  let shared := { shared with registry := (shared.registry.revoke s.published).2 }
  let (results, visits, shared) := register visits.tail shared records
  let failed := if o.config.publishProblems then records.filter (!·.satisfied) else []
  let completion : Completion :=
    { run := t.run, digest := t.digest, results, overall := Record.overall records }
  let s := { s with
    shared := report visits shared (failed.map problemOf)
    published := completion.tokens
    last := some completion }
  (s.emit (.runCompleted t.run.text results.length completion.overall)).send (.completed completion)

def cancel (s : State) (t : Task) (discarded : Nat) : State :=
  (s.emit (.runCancelled t.run.text discarded)).send (.cancelled t.run)

def conclude (o : Orchestrator) (visits : Visits) (s : State) (t : Task) : Outcome → State
  | .finished records => s.complete o visits t records
  | .cancelled discarded => s.cancel t discarded

-- A run whose place has been taken by a later one tells nothing.
def finish (o : Orchestrator) (visits : Visits) (s : State) (t : Task) (outcome : Outcome) : State :=
  if s.generation = t.generation then
    { (s.endTask t.run).conclude o visits t outcome with active := none, phase := .idle }
  else s.endTask t.run

theorem tasks_conclude (o : Orchestrator) (visits : Visits) (s : State) (t : Task)
    (outcome : Outcome) : (s.conclude o visits t outcome).tasks = s.tasks := by
  cases outcome <;> rfl

theorem task?_finish (o : Orchestrator) (visits : Visits) (s : State) (t : Task)
    (outcome : Outcome) : (s.finish o visits t outcome).task? t.run = none := by
  unfold finish
  split
  · simp only [task?, tasks_conclude]
    exact s.task?_endTask t.run
  · exact s.task?_endTask t.run

end State

end ModelAudit.Orchestrator

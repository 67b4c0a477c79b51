import ModelAudit.Proofs.Orchestrator.Desk
import ModelAudit.Proofs.Orchestrator.EventBlocks
import ModelAudit.Proofs.Orchestrator.Silence
import Mathlib.Data.List.Induction

namespace ModelAudit

namespace ProblemList

-- What others do to the list of problems. They use the registry as well, which is of no concern here.
def visit (l : ProblemList) : Visit → ProblemList
  | .push p => l.push p
  | .remove origin => l.remove origin
  | .register _ | .take _ | .revoke _ => l

def visitAll (l : ProblemList) (vs : List Visit) : ProblemList :=
  vs.foldl visit l

end ProblemList

namespace Shared

theorem problems_visit (s : Shared) (v : Visit) : (s.visit v).problems = s.problems.visit v := by
  cases v <;> rfl

theorem problems_visitAll (s : Shared) (vs : List Visit) :
    (s.visitAll vs).problems = s.problems.visitAll vs := by
  induction vs generalizing s
  case nil => rfl
  case cons v vs hi => exact (hi (s.visit v)).trans <| by rw [problems_visit]; rfl

theorem problems_yield (s : Shared) (visits : Visits) :
    (s.yield visits).problems = s.problems.visitAll (visits.headD []) :=
  s.problems_visitAll _

end Shared

-- How receivers learn that a run is over.
def RunEvent.closing? : RunEvent → Option Orchestrator.Closing
  | completed completion => some (.completed completion)
  | cancelled _ => some .cancelled
  | started .. | progress .. => none

namespace Orchestrator

-- What somebody does who has nothing to do with the runs.
def Happening.visits : Happening → List Visit
  | .visit v => [v]
  | _ => []

-- How the work of a run gets to its next stage. It may press the button that started it.
inductive Task.Goes (o : Orchestrator) (signals : Signals) (t : Task) : List RunEvent → Stage → Prop
  | move {facts events stage} (h : t.Moves o signals facts events stage) : t.Goes o signals events stage
  | press {next records} (h : t.stage = .checking (.press next) records) :
    t.Goes o signals [] (.checking next records)

-- What the work of a run completes with.
structure Task.Completes (t : Task) (records : List Record) (c : Completion) : Prop where
  run     : c.run = t.run
  digest  : c.digest = t.digest
  records : c.records = records
  traces  : ∀ p ∈ c.results, p.token.isSome = p.record.hasTrace

section Goes

variable {o : Orchestrator} {signals : Signals} {t : Task} {events : List RunEvent} {stage : Stage}

theorem Task.Goes.closing?_eq_none (h : t.Goes o signals events stage) :
    ∀ event ∈ events, event.closing? = none := by
  intro event he
  cases h
  case press => cases he
  case move h =>
    cases h
    case deliver => rw [List.mem_singleton.mp he]; rfl
    all_goals cases he

theorem Task.Goes.ne_launched (h : t.Goes o signals events stage) : stage ≠ .launched := by
  cases h
  case press => nofun
  case move h => cases h <;> nofun

end Goes

namespace Lifecycle

variable {o : Orchestrator} {facts facts' : List Incident} {l l' : Lifecycle} {t : Task}

theorem stage_nextTask (l : Lifecycle) (text : String) (document : Document) :
    (l.nextTask text document).stage = .launched :=
  rfl

-- A step that changes the work in flight, which is not about to end, takes it further.
theorem Step.goes (h : l.Step o facts' l') (hc : l.Coherent facts) (ht : l.tasks = [t])
    (hn : l'.tasks ≠ l.tasks) (hs : ∀ outcome, t.stage ≠ .settled outcome) :
    ∃ events stage, t.Goes o l.signals events stage ∧ l'.tasks = [{ t with stage := stage }] ∧
      l'.sent = l.sent ++ events ∧ l'.launches = l.launches := by
  have hp : l.phase ≠ .idle := fun hp => by simp [hc.flight.grounded_of_idle hp] at ht
  have only {t' : Task} (h : l.task? t'.run = some t') : t' = t :=
    List.mem_singleton.mp <| ht ▸ List.mem_of_find?_eq_some h
  cases h with
  | rest => exact absurd rfl hn
  | start ha =>
    cases ha with
    | launch hi => exact absurd hi hp
    | request => exact absurd l.tasks_raiseActive hn
    | ignore => exact absurd rfl hn
  | move ht' hm =>
    obtain rfl := only ht'
    exact ⟨_, _, .move hm, tasks_toStage_of_singleton ht _, rfl, rfl⟩
  | press ht' hp' ha =>
    obtain rfl := only ht'
    refine ⟨[], _, .press hp', ?_⟩
    cases ha with
    | launch hi => exact absurd hi hp
    | request =>
      rw [List.append_nil]
      exact ⟨(tasks_raiseActive _).trans <| tasks_toStage_of_singleton ht _, sent_raiseActive _,
        launches_raiseActive _⟩
    | ignore => exact ⟨tasks_toStage_of_singleton ht _, (List.append_nil _).symm, rfl⟩
  | complete ht' hs' => exact absurd (only ht' ▸ hs') <| hs _
  | cancel ht' hs' => exact absurd (only ht' ▸ hs') <| hs _
  | lapse ht' hs' => exact absurd (only ht' ▸ hs') <| hs _
  | abandon => exact absurd l.tasks_raiseActive hn

end Lifecycle

namespace State

structure Launches (s : State) (text : String) (document : Document) (s' : State) : Prop where
  idle     : s.phase = .idle
  tasks    : s.tasks = []
  tasks'   : s'.tasks = [s.lifecycle.nextTask text document]
  sent     : s'.channel.sent = s.channel.sent ++
    [.started ⟨s.launches + 1⟩ (s.lifecycle.nextTask text document).digest]
  launches : s'.launches = s.launches + 1
  entered  : s'.entered = s.entered
  shared   : s'.shared = s.shared

inductive Turn (o : Orchestrator) (s : State) : Happening → State → Prop
  | aside {h s'} (hw : ∀ run visits, h = .work run visits → s.advance? o visits run = none)
    (ht : s'.tasks = s.tasks) (hs : s'.channel.sent = s.channel.sent) (hl : s'.launches = s.launches)
    (he : s'.entered = s.entered) (hp : s'.shared.problems = s.shared.problems.visitAll h.visits) :
    Turn o s h s'
  | launch {text document s'} (h : s.Launches text document s') : Turn o s (.start text document) s'
  | go {t events stage visits s'} (ht : s.tasks = [t]) (hn : ∀ outcome, t.stage ≠ .settled outcome)
    (hg : t.Goes o s.signals events stage) (ht' : s'.tasks = [{ t with stage := stage }])
    (hs : s'.channel.sent = s.channel.sent ++ events) (hl : s'.launches = s.launches)
    (h : s.step? o visits t = some s') : Turn o s (.work t.run visits) s'
  | close {t outcome visits} (ht : s.tasks = [t]) (hs : t.stage = .settled outcome)
    (hg : s.generation = t.generation) : Turn o s (.work t.run visits) (s.finish o visits t outcome)

variable {o : Orchestrator} {s s' s₀ : State} {t : Task} {visits : Visits} {outcome : Outcome}

section Finish

theorem tasks_finish (hg : s.generation = t.generation) (ht : s.tasks = [t]) :
    (s.finish o visits t outcome).tasks = [] := by
  have he : (s.endTask t.run).tasks = [] := Lifecycle.tasks_endTask_of_singleton (l := s.lifecycle) ht
  rw [finish, if_pos hg]
  exact (tasks_conclude ..).trans he

theorem phase_finish (hg : s.generation = t.generation) : (s.finish o visits t outcome).phase = .idle := by
  rw [finish, if_pos hg]

theorem launches_finish (hg : s.generation = t.generation) :
    (s.finish o visits t outcome).launches = s.launches := by
  rw [finish, if_pos hg]
  cases outcome <;> rfl

theorem entered_finish (hg : s.generation = t.generation) :
    (s.finish o visits t outcome).entered = s.entered := by
  rw [finish, if_pos hg]
  cases outcome <;> rfl

theorem sent_finish_cancelled (hg : s.generation = t.generation) {discarded : Nat} :
    (s.finish o visits t (.cancelled discarded)).channel.sent = s.channel.sent ++ [.cancelled t.run] := by
  rw [finish, if_pos hg]
  rfl

theorem sent_finish_finished (hg : s.generation = t.generation) (visits : Visits) (records : List Record) :
    ∃ c, t.Completes records c ∧
      (s.finish o visits t (.finished records)).channel.sent = s.channel.sent ++ [.completed c] := by
  rw [finish, if_pos hg]
  refine ⟨_, ?_, rfl⟩
  exact ⟨rfl, rfl, map_record_register .., fun _ => (register_issues ..).left.token_isSome⟩

end Finish

theorem task?_of_tasks (ht : s.tasks = [t]) : s.task? t.run = some t := by
  simp [task?, ht]

theorem task?_of_gone {run : RunId} (hg : ∀ t ∈ s.tasks, t.run ≠ run) : s.task? run = none :=
  List.find?_eq_none.mpr fun t hm => by simpa using hg t hm

theorem work_turn {facts : List Incident} (hc : s.lifecycle.Coherent facts) (ht : s.tasks = [t])
    (h : s.step? o visits t = some s') : s.Turn o (.work t.run visits) s' := by
  have ht? := task?_of_tasks ht
  by_cases hs : ∃ outcome, t.stage = .settled outcome
  case pos =>
    have ⟨outcome, hs⟩ := hs
    simp only [step?, hs] at h
    cases h
    exact .close ht hs <| hc.generation_eq ht?
  case neg =>
    have hn (outcome) (he : t.stage = .settled outcome) : False := hs ⟨outcome, he⟩
    have ha : s.advance? o visits t.run = some s' := by rw [advance?, ht?]; exact h
    -- The task has fewer steps left than before, so it cannot be the same.
    have hne : s'.tasks ≠ s.tasks := fun he => by
      have hl := stepsLeft_lt_of_advance? ha
      simp [stepsLeft, task?, he] at hl
    obtain ⟨_, _, hg, ht', hs, hl⟩ := (task_step ht? h).goes hc ht hne hn
    exact .go ht hn hg ht' hs hl h

theorem after_launches {facts : List Incident} (hc : s.lifecycle.Coherent facts) (hp : s.phase = .idle)
    (text : String) (document : Document) :
    s.Launches text document (s.after o (.start text document)) := by
  have ht : s.tasks = [] := hc.flight.grounded_of_idle hp |>.right
  have hl := s.lifecycle_launch text document
  have ht' := congrArg Lifecycle.tasks hl
  rw [after, start, hp]
  exact {
    idle     := hp
    tasks    := ht
    tasks'   := ht'.trans <| congrArg (· ++ [s.lifecycle.nextTask text document]) ht
    sent     := congrArg Lifecycle.sent hl
    launches := rfl
    entered  := rfl
    shared   := rfl }

theorem after_turn {facts : List Incident} (hc : s.lifecycle.Coherent facts) (h : Happening) :
    s.Turn o h (s.after o h) := by
  cases h
  case start text document =>
    cases hp : s.phase
    case idle => exact .launch <| after_launches hc hp text document
    case running =>
      rw [after, start, hp]
      exact .aside (by simp) rfl rfl rfl rfl rfl
    case cancelling =>
      rw [after, start, hp]
      exact .aside (by simp) rfl rfl rfl rfl rfl
  case work run visits =>
    cases ha : s.advance? o visits run
    case none =>
      rw [after, ha]
      refine .aside ?_ rfl rfl rfl rfl rfl
      rintro _ _ ⟨⟩
      exact ha
    case some s' =>
      obtain ⟨t, ht, hs⟩ := Option.bind_eq_some_iff.mp ha
      obtain rfl := run_of_task? ht
      obtain ⟨_, _, _, ht, _⟩ := hc.flight.airborne_of_task? ht
      rw [after, ha]
      exact work_turn hc ht hs
  case visit v => exact .aside (by simp) rfl rfl rfl rfl <| s.shared.problems_visit v
  case abandon =>
    rw [after, abandon]
    split <;> exact .aside (by simp) rfl rfl rfl rfl rfl
  all_goals exact .aside (by simp) rfl rfl rfl rfl rfl

-- What has been told once stays told.
theorem Turn.sent_extends {h : Happening} (ht : s.Turn o h s') : s.channel.sent <+: s'.channel.sent := by
  cases ht with
  | aside _ _ hs => exact hs ▸ List.prefix_rfl
  | launch hl => exact hl.sent ▸ List.prefix_append ..
  | go _ _ _ _ hs => exact hs ▸ List.prefix_append ..
  | @close t outcome visits ht hs hg =>
    cases outcome
    case cancelled => exact sent_finish_cancelled hg ▸ List.prefix_append ..
    case finished records =>
      obtain ⟨c, _, hs'⟩ := sent_finish_finished (o := o) hg visits records
      exact hs' ▸ List.prefix_append ..

-- What holds at some moment and is preserved by every turn holds from then on.
theorem turn_induction (h : o.initial = .ok s₀) (before : List Happening)
    {motive : List Happening → Prop} (hm : motive before) (step : ∀ {history h}, motive history →
      (s₀.afterAll o history).Turn o h (s₀.afterAll o (history ++ [h])) → motive (history ++ [h]))
    (history : List Happening) : motive (before ++ history) := by
  induction history using List.reverseRecOn
  case nil => rwa [List.append_nil]
  case append_singleton history h' hi =>
    rw [← List.append_assoc]
    refine step hi ?_
    rw [afterAll_concat]
    exact after_turn (coherent_of_initial h _) h'

end State

end Orchestrator

end ModelAudit

import ModelAudit.Proofs.Orchestrator.Publication
import ModelAudit.Proofs.Orchestrator.Turns

namespace ModelAudit.Orchestrator

open Incident

-- How the runner ends in the next step of the work.
def Task.endings (t : Task) : List (Ending (Except AuditError Unit)) :=
  match t.stage with
  | .checking (.done result) _ => [.value result]
  | .checking (.panic message) _ => [.panicked message]
  | _ => []

-- The records that a run has come to, given how its runner has ended if it was entered.
inductive Concluded (spec : Except SpecError CheckSet) :
    List (Ending (Except AuditError Unit)) → List Record → Prop
  | refused {e} (h : spec = .error e) : Concluded spec [] [.violated Record.specificationLabel e.message]
  | passed {checks records} (h : spec = .ok checks) : Concluded spec [.value (.ok ())] records
  | failed {checks e} (h : spec = .ok checks) (he : e ≠ .cancelled) :
    Concluded spec [.value (.error e)] [.violated Record.runnerLabel (failureOf e).message]
  | panicked {checks message} (h : spec = .ok checks) :
    Concluded spec [.panicked message] [.violated Record.runnerLabel (failureOfPanic message).message]

inductive Outcome.Accounts (spec : Except SpecError CheckSet) (asked : Prop)
    (endings : List (Ending (Except AuditError Unit))) : Outcome → Prop
  | finished {records} (h : Concluded spec endings records) :
    Accounts spec asked endings (.finished records)
  | cancelled {discarded} (h : asked ∨ .value (.error .cancelled) ∈ endings) :
    Accounts spec asked endings (.cancelled discarded)

-- The runner ends once, between the stages at which it is at work and at which its work is over.
inductive Stage.Accounts (spec : Except SpecError CheckSet) (asked : Prop) :
    List (Ending (Except AuditError Unit)) → Stage → Prop
  | launched : Accounts spec asked [] .launched
  | cleared : Accounts spec asked [] .cleared
  | checking {checks work records} (h : spec = .ok checks) :
    Accounts spec asked [] (.checking work records)
  | ended {endings outcome} (h : outcome.Accounts spec asked endings) :
    Accounts spec asked endings (.ended outcome)
  | settled {endings outcome} (h : outcome.Accounts spec asked endings) :
    Accounts spec asked endings (.settled outcome)

section Accounts

variable {spec : Except SpecError CheckSet} {asked asked' : Prop}
  {endings : List (Ending (Except AuditError Unit))} {outcome : Outcome} {stage : Stage}

theorem Outcome.Accounts.imp (h : outcome.Accounts spec asked endings) (ha : asked → asked') :
    outcome.Accounts spec asked' endings := by
  cases h
  case finished h => exact .finished h
  case cancelled h => exact .cancelled <| h.imp_left ha

theorem Stage.Accounts.imp (h : stage.Accounts spec asked endings) (ha : asked → asked') :
    stage.Accounts spec asked' endings := by
  cases h
  case launched => exact .launched
  case cleared => exact .cleared
  case checking h => exact .checking h
  case ended h => exact .ended <| h.imp ha
  case settled h => exact .settled <| h.imp ha

theorem Stage.Accounts.unentered (h : stage.Accounts spec asked endings)
    (hs : stage = .launched ∨ stage = .cleared) : endings = [] := by
  cases h
  case launched => rfl
  case cleared => rfl
  all_goals simp at hs

theorem Stage.Accounts.at_work {work : Activity (Except AuditError Unit)} {records : List Record}
    (h : stage.Accounts spec asked endings) (hs : stage = .checking work records) :
    endings = [] ∧ ∃ checks, spec = .ok checks := by
  cases h
  case checking he => exact ⟨rfl, _, he⟩
  all_goals cases hs

theorem Stage.Accounts.outcome_accounts (h : stage.Accounts spec asked endings)
    (hs : stage = .ended outcome ∨ stage = .settled outcome) : outcome.Accounts spec asked endings := by
  cases h
  case ended h => cases hs <;> rename_i hs <;> cases hs; exact h
  case settled h => cases hs <;> rename_i hs <;> cases hs; exact h
  all_goals simp at hs

variable {o : Orchestrator} {signals : Signals} {t : Task} {events : List RunEvent}

theorem Task.Moves.accounts {facts : List Incident} (hm : t.Moves o signals facts events stage)
    (h : t.stage.Accounts t.spec asked endings) (hr : signals.IsRaised t.signal → asked) :
    stage.Accounts t.spec asked (endings ++ t.endings) := by
  -- In most of the steps the runner does not end.
  have goOn (hn : t.endings = []) (hs : stage.Accounts t.spec asked endings) :
      stage.Accounts t.spec asked (endings ++ t.endings) := by
    rwa [hn, List.append_nil]
  cases hm
  case clear hs =>
    obtain rfl := h.unentered <| .inl hs
    exact goOn (by rw [Task.endings, hs]) .cleared
  case refuse hs he =>
    obtain rfl := h.unentered <| .inr hs
    exact goOn (by rw [Task.endings, hs]) <| .ended <| .finished <| .refused he
  case enter hs he =>
    obtain rfl := h.unentered <| .inr hs
    exact goOn (by rw [Task.endings, hs]) <| .checking he
  case poll hs | emit hs | deliver hs | pass hs | stop hs _ =>
    obtain ⟨rfl, _, he⟩ := h.at_work hs
    exact goOn (by rw [Task.endings, hs]) <| .checking he
  case finish hs =>
    obtain ⟨rfl, _, he⟩ := h.at_work hs
    rw [Task.endings, hs]
    exact .ended <| .finished <| .passed he
  case cancel hs =>
    rw [Task.endings, hs]
    exact .ended <| .cancelled <| .inr <| List.mem_append_right _ <| List.mem_singleton_self _
  case fail hs hn =>
    obtain ⟨rfl, _, he⟩ := h.at_work hs
    rw [Task.endings, hs]
    exact .ended <| .finished <| .failed he hn
  case panic hs =>
    obtain ⟨rfl, _, he⟩ := h.at_work hs
    rw [Task.endings, hs]
    exact .ended <| .finished <| .panicked he
  case discard hs hi => exact goOn (by rw [Task.endings, hs]) <| .settled <| .cancelled <| .inl <| hr hi
  case approve hs _ | settle hs =>
    exact goOn (by rw [Task.endings, hs]) <| .settled <| h.outcome_accounts <| .inl hs

theorem Task.Goes.accounts (hg : t.Goes o signals events stage)
    (h : t.stage.Accounts t.spec asked endings) (hr : signals.IsRaised t.signal → asked) :
    stage.Accounts t.spec asked (endings ++ t.endings) := by
  cases hg
  case move hm => exact hm.accounts h hr
  case press hs =>
    obtain ⟨rfl, _, he⟩ := h.at_work hs
    rw [Task.endings, hs]
    exact .checking he

end Accounts

-- The completions of a run that receivers were told of.
def completionsOf (run : RunId) (sent : List RunEvent) : List Completion :=
  (sent.filterMap RunEvent.completed?).filter (·.run = run)

theorem completionsOf_append (run : RunId) (sent more : List RunEvent) :
    completionsOf run (sent ++ more) = completionsOf run sent ++ completionsOf run more := by
  simp [completionsOf]

namespace State

def endingsAt (s : State) (run : RunId) : Happening → List (Ending (Except AuditError Unit))
  | .work r _ => if r = run then ((s.task? r).map Task.endings).getD [] else []
  | _ => []

-- The ways in which the runner has ended for a run in the course of a history.
def endings (o : Orchestrator) (s : State) (run : RunId) :
    List Happening → List (Ending (Except AuditError Unit))
  | [] => []
  | h :: history => s.endingsAt run h ++ (s.after o h).endings o run history

variable {o : Orchestrator} {s s' s₀ : State} {t : Task} {run : RunId} {h : Happening} {visits : Visits}
  {history : List Happening}

theorem endings_concat (o : Orchestrator) (s : State) (run : RunId) (history : List Happening)
    (h : Happening) : s.endings o run (history ++ [h]) =
      s.endings o run history ++ (s.afterAll o history).endingsAt run h := by
  induction history generalizing s
  case nil => exact List.append_nil _
  case cons h' history hi => simp [endings, hi, afterAll_cons]

theorem chronicle_concat (o : Orchestrator) (s : State) (history : List Happening) (h : Happening) :
    s.chronicle o (history ++ [h]) = s.chronicle o history ++ (s.afterAll o history).incidents h := by
  induction history generalizing s
  case nil => exact List.append_nil _
  case cons h' history hi => simp [chronicle, hi, afterAll_cons]

theorem returned_mem_incidents {result : Except AuditError Unit} :
    .returned run result ∈ t.incidents s ↔ t.run = run ∧ .value result ∈ t.endings := by
  cases hs : t.stage
  case checking work records =>
    cases work <;> simp [Task.incidents, Task.endings, hs, eq_comm]
  all_goals simp [Task.incidents, Task.endings, hs]

theorem value_mem_endingsAt {result : Except AuditError Unit} :
    .value result ∈ s.endingsAt run h ↔ .returned run result ∈ s.incidents h := by
  cases h
  case work r visits =>
    cases ht : s.task? r
    case none => simp [endingsAt, incidents, ht]
    case some t =>
      obtain rfl := run_of_task? ht
      by_cases hr : t.run = run
      · subst hr
        simp [endingsAt, incidents, ht, returned_mem_incidents]
      · simp [endingsAt, incidents, ht, hr, returned_mem_incidents]
  all_goals simp [endingsAt, incidents]

theorem value_mem_endings {result : Except AuditError Unit} :
    .value result ∈ s.endings o run history ↔ .returned run result ∈ s.chronicle o history := by
  induction history generalizing s
  case nil => simp [endings, chronicle]
  case cons h history hi =>
    rw [endings, chronicle, List.mem_append, List.mem_append, hi, value_mem_endingsAt]

-- Work that waits does not end.
theorem endings_eq_nil_of_step?_eq_none (h : s.step? o visits t = none) : t.endings = [] := by
  cases hs : t.stage
  case checking work records =>
    cases work
    case done result => rcases result with e | _ <;> (try cases e) <;> simp [step?, hs, work?] at h
    case panic => simp [step?, hs, work?] at h
    all_goals rw [Task.endings, hs]
  all_goals rw [Task.endings, hs]

theorem endingsAt_of_aside (hw : ∀ run visits, h = .work run visits → s.advance? o visits run = none) :
    s.endingsAt run h = [] := by
  cases h
  case work r visits =>
    have ha := hw r visits rfl
    cases ht : s.task? r
    case none => simp [endingsAt, ht]
    case some t =>
      have hs : s.step? o visits t = none := by rwa [advance?, ht] at ha
      simp [endingsAt, ht, endings_eq_nil_of_step?_eq_none hs]
  all_goals rfl

theorem endingsAt_of_gone (hg : ∀ t ∈ s.tasks, t.run ≠ run) : s.endingsAt run h = [] := by
  cases h
  case work r visits =>
    rw [endingsAt]
    split
    case isTrue hr =>
      rw [hr, task?_of_gone hg]
      rfl
    case isFalse => rfl
  all_goals rfl

theorem endingsAt_of_tasks (ht : s.tasks = [t]) : s.endingsAt t.run (.work t.run visits) = t.endings := by
  simp [endingsAt, task?_of_tasks ht]

theorem asked_of_raised {facts : List Incident} (hc : s.lifecycle.Coherent facts) (ht : s.tasks = [t])
    (hr : s.signals.IsRaised t.signal) : Asked t.run facts := by
  have ⟨_, a, ha, _, hw⟩ := hc.flight.airborne_of_task? <| task?_of_tasks ht
  have hq := (hc.cause a ha <| hw.signal ▸ hr).imp_left And.right
  rwa [← hw.run] at hq

section Told

variable {sent events : List RunEvent}

theorem completionsOf_of_silent (hn : ∀ event ∈ events, event.closing? = none) :
    completionsOf run (sent ++ events) = completionsOf run sent := by
  have he : events.filterMap RunEvent.completed? = [] := by
    refine List.filterMap_eq_nil_iff.mpr fun event hm => ?_
    have hn := hn event hm
    cases event <;> first | rfl | cases hn
  simp [completionsOf, he]

theorem cancelled_of_silent (hn : ∀ event ∈ events, event.closing? = none) :
    .cancelled run ∈ sent ++ events ↔ .cancelled run ∈ sent := by
  refine List.mem_append.trans <| or_iff_left fun hm => ?_
  cases hn _ hm

-- What receivers are told of a run does not change when other runs are launched, go on and end.
theorem Turn.told_of_gone (ht : s.Turn o h s') (hg : ∀ t ∈ s.tasks, t.run ≠ run) :
    completionsOf run s'.channel.sent = completionsOf run s.channel.sent ∧
      (.cancelled run ∈ s'.channel.sent ↔ .cancelled run ∈ s.channel.sent) := by
  cases ht with
  | aside _ _ hs => rw [hs]; exact ⟨rfl, Iff.rfl⟩
  | launch hl =>
    rw [hl.sent]
    exact ⟨completionsOf_of_silent (by simp [RunEvent.closing?]),
      cancelled_of_silent (by simp [RunEvent.closing?])⟩
  | go _ _ hg _ hs =>
    rw [hs]
    exact ⟨completionsOf_of_silent hg.closing?_eq_none, cancelled_of_silent hg.closing?_eq_none⟩
  | @close t outcome visits ht hs hg' =>
    have hr : t.run ≠ run := hg t <| by simp [ht]
    cases outcome
    case cancelled =>
      rw [sent_finish_cancelled hg']
      simp [completionsOf, RunEvent.completed?, Ne.symm hr]
    case finished records =>
      obtain ⟨c, hc, hs'⟩ := sent_finish_finished (o := o) hg' visits records
      rw [hs']
      simp [completionsOf, RunEvent.completed?, hc.run, hr]

end Told

theorem run_of_mem_tasks {facts : List Incident} (hc : s.lifecycle.Coherent facts) (ht : t ∈ s.tasks) :
    t.run = ⟨s.launches⟩ := by
  have ⟨_, a, ha, _, hw⟩ := hc.flight.airborne_of_task? <| hc.flight.task?_of_mem ht
  exact hw.run.trans (hc.newest a ha).left

theorem over_finish {facts : List Incident} {outcome : Outcome} (hc : s.lifecycle.Coherent facts)
    (ht : s.tasks = [t]) (hg : s.generation = t.generation) :
    (s.finish o visits t outcome).lifecycle.Over t.run where
  launched := by
    rw [run_of_mem_tasks (t := t) hc <| by simp [ht]]
    exact Nat.le_of_eq (launches_finish hg).symm
  gone     := by
    have hn : (s.finish o visits t outcome).lifecycle.tasks = [] := tasks_finish hg ht
    rw [hn]
    exact List.forall_mem_nil _

theorem Turn.over (ht : s.Turn o h s') (ho : s.lifecycle.Over run) : s'.lifecycle.Over run := by
  obtain ⟨hl, hg⟩ : run.number ≤ s.launches ∧ ∀ t ∈ s.tasks, t.run ≠ run := ⟨ho.launched, ho.gone⟩
  have isOver (hl : run.number ≤ s'.launches) (hg : ∀ t ∈ s'.tasks, t.run ≠ run) :
      s'.lifecycle.Over run :=
    ⟨hl, hg⟩
  cases ht with
  | aside _ ht _ hl' => exact isOver (hl' ▸ hl) (ht ▸ hg)
  | launch hl' =>
    refine isOver (hl'.launches ▸ Nat.le_succ_of_le hl) ?_
    rw [hl'.tasks']
    rintro t hm rfl
    rw [List.mem_singleton.mp hm] at hl
    exact Nat.not_succ_le_self _ hl
  | @go t _ _ _ _ ht _ _ ht' _ hl' =>
    refine isOver (hl' ▸ hl) ?_
    rw [ht', List.forall_mem_singleton]
    exact hg t <| by simp [ht]
  | close ht _ hg' =>
    refine isOver (launches_finish hg' ▸ hl) ?_
    rw [tasks_finish hg' ht]
    exact List.forall_mem_nil _

end State

-- The work that a run was launched with.
structure Task.Carries (t : Task) (run : RunId) (text : String) : Prop where
  run    : t.run = run
  spec   : t.spec = CheckSet.parse text
  digest : t.digest = (CheckSet.parse text).toOption.map CheckSet.digest

-- What has become of a run.
inductive Fate (run : RunId) (text : String) (facts : List Incident)
    (endings : List (Ending (Except AuditError Unit))) (s : State) : Prop
  | underway {t} (ht : s.tasks = [t]) (hc : t.Carries run text)
    (ha : t.stage.Accounts t.spec (Asked run facts) endings)
    (hn : completionsOf run s.channel.sent = []) (hs : .cancelled run ∉ s.channel.sent)
  | cancelled (ho : s.lifecycle.Over run) (hr : Asked run facts ∨ .value (.error .cancelled) ∈ endings)
    (hn : completionsOf run s.channel.sent = []) (hs : .cancelled run ∈ s.channel.sent)
  | completed {c} (ho : s.lifecycle.Over run) (hr : Concluded (CheckSet.parse text) endings c.records)
    (hd : c.digest = (CheckSet.parse text).toOption.map CheckSet.digest)
    (ht : ∀ p ∈ c.results, p.token.isSome = p.record.hasTrace)
    (hn : completionsOf run s.channel.sent = [c]) (hs : .cancelled run ∉ s.channel.sent)

section

open State

variable {o : Orchestrator} {run : RunId} {text : String} {facts more : List Incident}
variable {endings : List (Ending (Except AuditError Unit))} {s s' : State} {t : Task} {h : Happening}

theorem fate_finish (hc : s.lifecycle.Coherent facts) (ht : s.tasks = [t]) (hg : s.generation = t.generation)
    (hca : t.Carries run text) {outcome : Outcome}
    (ha : outcome.Accounts t.spec (Asked run facts) endings)
    (hn : completionsOf run s.channel.sent = []) (hs : .cancelled run ∉ s.channel.sent)
    (visits : Visits) : Fate run text facts endings (s.finish o visits t outcome) := by
  obtain rfl := hca.run
  have ho : (s.finish o visits t outcome).lifecycle.Over t.run := over_finish hc ht hg
  cases ha
  case finished records hr =>
    have ⟨c, hcc, hs'⟩ := sent_finish_finished (o := o) hg visits records
    refine .completed (c := c) ho ?_ (hcc.digest.trans hca.digest) hcc.traces ?_ ?_
    · rwa [hcc.records, ← hca.spec]
    · rw [hs', completionsOf_append, hn]
      simp [completionsOf, RunEvent.completed?, hcc.run]
    · rw [hs']
      simpa using hs
  case cancelled discarded hr =>
    refine .cancelled ho hr ?_ ?_ <;> rw [sent_finish_cancelled hg]
    · rw [completionsOf_append, hn]
      rfl
    · exact List.mem_append_right _ <| List.mem_singleton_self _

theorem Fate.append (hf : Fate run text facts endings s) : Fate run text (facts ++ more) endings s := by
  cases hf
  case underway ht hc ha hn hs => exact .underway ht hc (ha.imp .append) hn hs
  case cancelled ho hr hn hs => exact .cancelled ho (hr.imp_left .append) hn hs
  case completed ho hr hd ht hn hs => exact .completed ho hr hd ht hn hs

theorem Fate.turn (hf : Fate run text facts endings s) (hc : s.lifecycle.Coherent facts)
    (ht : s.Turn o h s') : Fate run text facts (endings ++ s.endingsAt run h) s' := by
  cases hf
  case cancelled ho hr hn hs =>
    have ⟨hn', hs'⟩ := ht.told_of_gone ho.gone
    rw [endingsAt_of_gone ho.gone, List.append_nil]
    exact .cancelled (ht.over ho) hr (hn'.trans hn) (hs'.mpr hs)
  case completed ho hr hd htr hn hs =>
    have ⟨hn', hs'⟩ := ht.told_of_gone ho.gone
    rw [endingsAt_of_gone ho.gone, List.append_nil]
    exact .completed (ht.over ho) hr hd htr (hn'.trans hn) (mt hs'.mp hs)
  case underway t ht' hca ha hn hs =>
    obtain rfl := hca.run
    cases ht with
    | aside hw htt hs' =>
      rw [endingsAt_of_aside hw, List.append_nil]
      exact .underway (htt.trans ht') hca ha (hs' ▸ hn) (hs' ▸ hs)
    | launch hl => simp [hl.tasks] at ht'
    | @go t' events stage visits _ ht _ hg htt hs' =>
      obtain rfl : t' = t := by simpa [ht'] using ht.symm
      rw [endingsAt_of_tasks ht]
      refine .underway htt ⟨rfl, hca.spec, hca.digest⟩ (hg.accounts ha <| asked_of_raised hc ht) ?_ ?_
      · rw [hs', completionsOf_of_silent hg.closing?_eq_none, hn]
      · rwa [hs', cancelled_of_silent hg.closing?_eq_none]
    | @close t' outcome visits ht hstage hg =>
      obtain rfl : t' = t := by simpa [ht'] using ht.symm
      rw [endingsAt_of_tasks ht, Task.endings, hstage, List.append_nil]
      exact fate_finish hc ht hg hca (ha.outcome_accounts <| .inr hstage) hn hs visits

end

namespace State

variable {o : Orchestrator} {s s' s₀ : State} {t : Task} {run : RunId} {h : Happening}

theorem Turn.launches_le (ht : s.Turn o h s') : s.launches ≤ s'.launches := by
  cases ht with
  | aside _ _ _ hl => exact Nat.le_of_eq hl.symm
  | launch hl => exact hl.launches ▸ Nat.le_succ _
  | go _ _ _ _ _ hl => exact Nat.le_of_eq hl.symm
  | close _ _ hg => exact Nat.le_of_eq (launches_finish hg).symm

-- The runner is entered for work in flight whose specification could be read, and for no other.
theorem Turn.entered (ht : s.Turn o h s') (hm : run ∈ s'.entered) :
    run ∈ s.entered ∨ ∃ t ∈ s.tasks, t.run = run ∧ ∃ checks, t.spec = .ok checks := by
  cases ht with
  | aside _ _ _ _ he => exact .inl <| he ▸ hm
  | launch hl => exact .inl <| hl.entered ▸ hm
  | @go t _ _ _ _ ht hn _ _ _ _ hs =>
    by_cases hl : t.stage = .launched
    case pos => exact .inl <| (cleared_of_step? hs hl).right ▸ hm
    case neg =>
      rcases (kept_of_step? hs hl hn).right with he | ⟨checks, hc, he⟩
      · exact .inl <| he ▸ hm
      · refine (List.mem_append.mp <| he ▸ hm).imp_right fun hm => ?_
        exact ⟨t, by simp [ht], (List.mem_singleton.mp hm).symm, checks, hc⟩
  | close _ _ hg => exact .inl <| entered_finish hg ▸ hm

theorem number_of_mem_entered (h : o.initial = .ok s₀) (history : List Happening) :
    ∀ run ∈ (s₀.afterAll o history).entered, run.number ≤ (s₀.afterAll o history).launches := by
  refine turn_induction h [] (motive := fun history => ∀ run ∈ (s₀.afterAll o history).entered,
    run.number ≤ (s₀.afterAll o history).launches) ?_ ?_ history
  · obtain ⟨_, rfl⟩ := eq_of_initial h
    exact List.forall_mem_nil _
  · intro history h' hi ht run hm
    refine Nat.le_trans ?_ ht.launches_le
    rcases ht.entered hm with hm | ⟨t, ht, rfl, _⟩
    · exact hi run hm
    · exact Nat.le_of_eq <| congrArg RunId.number <| run_of_mem_tasks (coherent_of_initial h history) ht

-- Nothing ends before it begins.
theorem endings_of_launches_lt (h : o.initial = .ok s₀) (history : List Happening)
    (hr : (s₀.afterAll o history).launches < run.number) : s₀.endings o run history = [] := by
  refine turn_induction h [] (motive := fun history =>
    (s₀.afterAll o history).launches < run.number → s₀.endings o run history = []) ?_ ?_ history hr
  · exact fun _ => rfl
  · intro history h' hi ht hr
    have hr : (s₀.afterAll o history).launches < run.number := Nat.lt_of_le_of_lt ht.launches_le hr
    have hg : ∀ t ∈ (s₀.afterAll o history).tasks, t.run ≠ run := by
      rintro t hm rfl
      rw [run_of_mem_tasks (coherent_of_initial h history) hm] at hr
      exact Nat.lt_irrefl _ hr
    rw [endings_concat, hi hr, endingsAt_of_gone hg]
    rfl

variable {text : String} {document : Document}

-- A run that is launched has nothing behind it.
theorem fate_of_launch (h : o.initial = .ok s₀) (before : List Happening)
    (hp : (s₀.afterAll o before).phase = .idle) (text : String) (document : Document) :
    Fate ⟨(s₀.afterAll o before).launches + 1⟩ text (s₀.chronicle o (before ++ [.start text document]))
      (s₀.endings o ⟨(s₀.afterAll o before).launches + 1⟩ (before ++ [.start text document]))
      (s₀.afterAll o (before ++ [.start text document])) := by
  have hl := after_launches (o := o) (coherent_of_initial h before) hp text document
  have hd := Lifecycle.decided h before
  have hlt (run : RunId) (ho : (s₀.afterAll o before).lifecycle.Over run) :
      run ≠ ⟨(s₀.afterAll o before).launches + 1⟩ :=
    fun he => Nat.not_succ_le_self _ <| he ▸ ho.launched
  have hn : completionsOf ⟨(s₀.afterAll o before).launches + 1⟩
      (s₀.afterAll o before).channel.sent = [] := by
    refine List.filter_eq_nil_iff.mpr fun c hc => ?_
    have ho := hd.completed c <| .inl <| mem_told.mp hc
    simpa using hlt c.run ho
  have hs : .cancelled ⟨(s₀.afterAll o before).launches + 1⟩ ∉ (s₀.afterAll o before).channel.sent :=
    fun hm => hlt _ (hd.cancelled _ hm) rfl
  rw [endings_concat, endings_of_launches_lt h before (Nat.lt_succ_self _), afterAll_concat]
  refine .underway hl.tasks' ⟨rfl, rfl, rfl⟩ ?_ ?_ ?_
  · rw [Lifecycle.stage_nextTask]
    exact .launched
  · rw [hl.sent, completionsOf_of_silent (by simp [RunEvent.closing?]), hn]
  · rwa [hl.sent, cancelled_of_silent (by simp [RunEvent.closing?])]

theorem not_entered_of_launch (h : o.initial = .ok s₀) (before : List Happening)
    (hp : (s₀.afterAll o before).phase = .idle) (text : String) (document : Document) :
    ⟨(s₀.afterAll o before).launches + 1⟩ ∉
      (s₀.afterAll o (before ++ [.start text document])).entered := by
  rw [afterAll_concat, after_launches (coherent_of_initial h before) hp text document |>.entered]
  exact fun hm => Nat.not_succ_le_self _ <| number_of_mem_entered h before _ hm

-- The runner is not entered for a specification that cannot be read.
theorem Turn.not_entered {facts : List Incident} {endings : List (Ending (Except AuditError Unit))}
    {e : SpecError} (ht : s.Turn o h s') (hf : Fate run text facts endings s)
    (he : CheckSet.parse text = .error e) (hn : run ∉ s.entered) : run ∉ s'.entered := by
  intro hm
  obtain ⟨t, hm, hr, checks, hc⟩ := ht.entered hm |>.resolve_left hn
  cases hf
  case underway t' ht' hca _ _ _ =>
    obtain rfl : t = t' := List.mem_singleton.mp <| ht' ▸ hm
    rw [hca.spec, he] at hc
    cases hc
  case cancelled ho _ _ _ => exact ho.gone t hm hr
  case completed ho _ _ _ _ _ => exact ho.gone t hm hr

theorem fate_afterAll (h : o.initial = .ok s₀) {before : List Happening}
    (hf : Fate run text (s₀.chronicle o before) (s₀.endings o run before) (s₀.afterAll o before))
    (hn : run ∉ (s₀.afterAll o before).entered) (history : List Happening) :
    Fate run text (s₀.chronicle o (before ++ history)) (s₀.endings o run (before ++ history))
        (s₀.afterAll o (before ++ history)) ∧
      ∀ e, CheckSet.parse text = .error e → run ∉ (s₀.afterAll o (before ++ history)).entered := by
  refine turn_induction h before (motive := fun history =>
    Fate run text (s₀.chronicle o history) (s₀.endings o run history) (s₀.afterAll o history) ∧
      ∀ e, CheckSet.parse text = .error e → run ∉ (s₀.afterAll o history).entered)
    ⟨hf, fun _ _ => hn⟩ ?_ history
  rintro history h' ⟨hf, hn⟩ ht
  refine ⟨?_, fun e he => ht.not_entered hf he (hn e he)⟩
  rw [chronicle_concat, endings_concat]
  exact hf.turn (coherent_of_initial h history) ht |>.append

end State

end ModelAudit.Orchestrator

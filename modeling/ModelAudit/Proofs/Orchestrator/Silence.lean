import ModelAudit.Proofs.Orchestrator.SingleFlight
import ModelAudit.Runner.Staged

namespace ModelAudit.Orchestrator

open Incident

theorem Task.Moves.not_completed {o : Orchestrator} {signals : Signals} {t : Task}
    {facts : List Incident} {events : List RunEvent} {stage : Stage}
    (h : t.Moves o signals facts events stage) (c : Completion) : .completed c ∉ events := by
  cases h <;> simp

theorem Task.Moves.not_cancelled {o : Orchestrator} {signals : Signals} {t : Task}
    {facts : List Incident} {events : List RunEvent} {stage : Stage}
    (h : t.Moves o signals facts events stage) (run : RunId) : .cancelled run ∉ events := by
  cases h <;> simp

theorem Task.Moves.not_answered {o : Orchestrator} {signals : Signals} {t : Task}
    {facts : List Incident} {events : List RunEvent} {stage : Stage}
    (h : t.Moves o signals facts events stage) (outcome : StartOutcome) : .answered outcome ∉ facts := by
  cases h <;> simp

-- The last look at the flag lets a run pass only if the signal is not raised.
theorem Task.Moves.not_finished_of_raised {o : Orchestrator} {signals : Signals} {t : Task}
    {facts : List Incident} {events : List RunEvent} {stage : Stage}
    (h : t.Moves o signals facts events stage) (hr : signals.IsRaised t.signal)
    (records : List Record) : stage ≠ .settled (.finished records) := by
  cases h
  case approve hn => exact absurd hr hn
  all_goals nofun

namespace Lifecycle

variable {o : Orchestrator} {facts facts' : List Incident} {l l' : Lifecycle} {run : RunId}
  {c : Completion}

-- Others can know of a completion.
def Tells (l : Lifecycle) (c : Completion) : Prop :=
  .completed c ∈ l.sent ∨ l.last = some c

-- The work of a run was in flight and is no more.
structure Over (l : Lifecycle) (run : RunId) : Prop where
  launched : run.number ≤ l.launches
  gone     : ∀ t ∈ l.tasks, t.run ≠ run

-- The work of a run has not passed its last look at the flag, or it does not publish anyway.
def Undecided (l : Lifecycle) (run : RunId) : Prop :=
  ∀ t ∈ l.tasks, t.run = run → ∀ records, t.stage ≠ .settled (.finished records)

-- A run that was asked to stop in time.
structure Hushed (l : Lifecycle) (run : RunId) : Prop where
  launched  : run.number ≤ l.launches
  raised    : ∀ t ∈ l.tasks, t.run = run → l.signals.IsRaised t.signal
  undecided : l.Undecided run
  mute      : ∀ c, l.Tells c → c.run ≠ run
  ending    : (∃ t ∈ l.tasks, t.run = run) ∨ .cancelled run ∈ l.sent

-- The number of a new run is larger than that of any run before.
theorem mem_tasks_of_launch {text : String} {document : Document} {t : Task}
    (hr : t.run.number ≤ l.launches) (ht : t ∈ (l.launch (l.nextTask text document)).tasks) :
    t ∈ l.tasks := by
  cases List.mem_append.mp ht
  case inl ht => exact ht
  case inr ht =>
    cases List.mem_singleton.mp ht
    exact absurd hr <| Nat.not_succ_le_self _

theorem last_raiseActive (l : Lifecycle) : l.raiseActive.last = l.last := by
  cases h : l.active <;> simp [raiseActive, h]

theorem tells_raiseActive : l.raiseActive.Tells c ↔ l.Tells c := by
  rw [Tells, Tells, sent_raiseActive, last_raiseActive]

theorem Answers.cancelled_mem {outcome : StartOutcome} (h : l.Answers outcome l')
    (hm : .cancelled run ∈ l'.sent) : .cancelled run ∈ l.sent := by
  cases h
  case launch => simpa [Lifecycle.launch] using hm
  case request => exact l.sent_raiseActive ▸ hm
  case ignore => exact hm

theorem Answers.tells {outcome : StartOutcome} (h : l.Answers outcome l') : l'.Tells c ↔ l.Tells c := by
  cases h
  case launch => simp [Tells, Lifecycle.launch]
  case request => exact tells_raiseActive
  case ignore => rfl

-- The step in which the work of a run ends.
structure Ends (l : Lifecycle) (t : Task) (outcome : Outcome) (facts : List Incident) (l' : Lifecycle) :
    Prop where
  task     : l.task? t.run = some t
  stage    : t.stage = .settled outcome
  tasks    : l'.tasks = (l.endTask t.run).tasks
  launches : l'.launches = l.launches
  facts    : facts = []

-- A completion comes from a run that publishes, and from nowhere else.
theorem Step.tells (hs : l.Step o facts l') (h : l'.Tells c) :
    l.Tells c ∨ ∃ t, l.Ends t (.finished c.records) facts l' ∧ t.run = c.run := by
  cases hs with
  | rest => exact .inl h
  | start ha => exact .inl <| ha.tells.mp h
  | move _ hm =>
    refine .inl <| h.imp_left fun h => ?_
    exact List.mem_append.mp h |>.resolve_right <| hm.not_completed c
  | press _ _ ha => exact .inl <| ha.tells.mp h
  | complete ht hs _ hr hc =>
    cases h
    case inl h =>
      cases List.mem_append.mp h
      case inl h => exact .inl <| .inl h
      case inr h =>
        cases List.mem_singleton.mp h
        exact .inr ⟨_, ⟨ht, hc ▸ hs, rfl, rfl, rfl⟩, hr.symm⟩
    case inr h =>
      cases h
      exact .inr ⟨_, ⟨ht, hc ▸ hs, rfl, rfl, rfl⟩, hr.symm⟩
  | cancel =>
    refine .inl <| h.imp_left fun h => ?_
    exact List.mem_append.mp h |>.resolve_right <| by simp
  | lapse => exact .inl h
  | abandon => exact .inl <| tells_raiseActive.mp h

-- That a run was cancelled is told in its last step, and nowhere else.
theorem Step.cancels (hs : l.Step o facts l') (h : .cancelled run ∈ l'.sent) :
    .cancelled run ∈ l.sent ∨
      ∃ t discarded, l.Ends t (.cancelled discarded) facts l' ∧ t.run = run := by
  cases hs with
  | rest => exact .inl h
  | start ha => exact .inl <| ha.cancelled_mem h
  | move _ hm => exact .inl <| List.mem_append.mp h |>.resolve_right <| hm.not_cancelled run
  | press _ _ ha => exact .inl <| ha.cancelled_mem h
  | complete => exact .inl <| List.mem_append.mp h |>.resolve_right <| by simp
  | @cancel t discarded ht hs =>
    cases List.mem_append.mp h
    case inl h => exact .inl h
    case inr h =>
      cases List.mem_singleton.mp h
      exact .inr ⟨t, discarded, ⟨ht, hs, rfl, rfl, rfl⟩, rfl⟩
  | lapse => exact .inl h
  | abandon => exact .inl <| l.sent_raiseActive ▸ h

namespace Over

theorem answers {outcome : StartOutcome} (h : l.Over run) (ha : l.Answers outcome l') :
    l'.Over run := by
  cases ha
  case launch =>
    refine ⟨Nat.le_succ_of_le h.launched, fun t ht hr => ?_⟩
    exact h.gone t (mem_tasks_of_launch (hr ▸ h.launched) ht) hr
  case request => exact ⟨l.launches_raiseActive ▸ h.launched, l.tasks_raiseActive ▸ h.gone⟩
  case ignore => exact h

theorem toStage (h : l.Over run) (r : RunId) (stage : Stage) : (l.toStage r stage).Over run where
  launched := h.launched
  gone     := by
    intro t ht
    obtain ⟨t', ht', rfl⟩ := List.mem_map.mp ht
    split <;> exact h.gone t' ht'

theorem step (h : l.Over run) (hs : l.Step o facts l') : l'.Over run := by
  have he (r : RunId) : ∀ t ∈ (l.endTask r).tasks, t.run ≠ run :=
    fun t ht => h.gone t <| List.mem_filter.mp ht |>.left
  cases hs with
  | rest => exact h
  | start ha => exact h.answers ha
  | move => exact ⟨h.launched, h.toStage _ _ |>.gone⟩
  | press _ _ ha => exact h.toStage _ _ |>.answers ha
  | complete | cancel | lapse => exact ⟨h.launched, he _⟩
  | abandon => exact ⟨l.launches_raiseActive ▸ h.launched, l.tasks_raiseActive ▸ h.gone⟩

-- A run that ends was launched last, and it leaves nothing in flight.
theorem of_ends {t : Task} {outcome : Outcome} (hc : l.Coherent facts)
    (h : l.Ends t outcome facts' l') : l'.Over t.run := by
  have ⟨_, a, ha, ht, hw⟩ := hc.flight.airborne_of_task? h.task
  constructor
  · simp [hw.run, (hc.newest a ha).left, h.launches]
  · simp [h.tasks, tasks_endTask_of_singleton ht]

theorem not_ends {t : Task} {outcome : Outcome} (h : l.Over t.run) : ¬l.Ends t outcome facts l' :=
  fun he => h.gone t (List.mem_of_find?_eq_some he.task) rfl

end Over

-- Of a run that others know to be cancelled nobody ever knows a completion.
structure Decided (l : Lifecycle) : Prop where
  completed : ∀ c, l.Tells c → l.Over c.run
  cancelled : ∀ run, .cancelled run ∈ l.sent → l.Over run
  exclusive : ∀ c, l.Tells c → .cancelled c.run ∉ l.sent

theorem Decided.step (h : l.Decided) (hc : l.Coherent facts) (hs : l.Step o facts' l') :
    l'.Decided where
  completed := by
    intro c hm
    cases hs.tells hm
    case inl hm => exact (h.completed c hm).step hs
    case inr he =>
      have ⟨t, he, hr⟩ := he
      exact hr ▸ .of_ends hc he
  cancelled := by
    intro run hm
    cases hs.cancels hm
    case inl hm => exact (h.cancelled run hm).step hs
    case inr he =>
      have ⟨t, _, he, hr⟩ := he
      exact hr ▸ .of_ends hc he
  exclusive := by
    intro c hm hm'
    rcases hs.tells hm with hm | ⟨t, he, hr⟩ <;> rcases hs.cancels hm' with hm' | ⟨t', _, he', hr'⟩
    · exact h.exclusive c hm hm'
    · exact (hr' ▸ h.completed c hm).not_ends he'
    · exact (hr ▸ h.cancelled c.run hm').not_ends he
    · -- The two would be the work of one run at two stages.
      obtain rfl : t = t' := Option.some.inj <| he.task.symm.trans <| (hr'.trans hr.symm) ▸ he'.task
      cases he.stage.symm.trans he'.stage

theorem decided {s₀ : State} (h : o.initial = .ok s₀) (history : List Happening) :
    (s₀.afterAll o history).lifecycle.Decided := by
  obtain ⟨capacity, rfl⟩ := State.eq_of_initial h
  refine (Coherent.initial { capacity := capacity }).induction
    (motive := fun _ l => l.Decided) ?_ (fun hc hd hs => hd.step hc hs) history
  constructor <;> simp [Tells, State.lifecycle]

-- Runs that others know the completion of are over.
theorem Over.of_tells {s₀ : State} (h : o.initial = .ok s₀) (history : List Happening)
    (hc : (s₀.afterAll o history).lifecycle.Tells c) : (s₀.afterAll o history).lifecycle.Over c.run :=
  (decided h history).completed c hc

namespace Hushed

-- A request that comes in time.
theorem of_request (hc : l'.Coherent facts) (hp : l'.phase = .cancelling)
    (ha : l'.active.map (·.run) = some run) (hu : l'.Undecided run)
    (ho : ∀ c, l'.Tells c → l'.Over c.run) : l'.Hushed run := by
  have ⟨a, t, ha', ht, hw⟩ := hc.flight.airborne_of_ne_idle (by simp [hp])
  have hr : a.run = run := by simpa [ha'] using ha
  constructor
  case launched => simp [← hr, (hc.newest a ha').left]
  case raised =>
    intro t' ht' _
    obtain rfl : t' = t := by simpa [ht] using ht'
    exact hw.signal ▸ hc.raised a ha' hp
  case undecided => exact hu
  case mute => exact fun c hc hr' => (ho c hc).gone t (by simp [ht]) (by rw [hw.run, hr, hr'])
  case ending => exact .inl ⟨t, by simp [ht], hw.run.trans hr⟩

theorem raiseActive (h : l.Hushed run) (phase : Phase) :
    { l.raiseActive with phase := phase : Lifecycle }.Hushed run where
  launched  := l.launches_raiseActive ▸ h.launched
  raised    := fun t ht hr => isRaised_raiseActive <| h.raised t (l.tasks_raiseActive ▸ ht) hr
  undecided := fun t ht => h.undecided t (l.tasks_raiseActive ▸ ht)
  mute      := fun c hc => h.mute c <| tells_raiseActive.mp hc
  ending    := by simpa only [tasks_raiseActive, sent_raiseActive] using h.ending

theorem answers {outcome : StartOutcome} (h : l.Hushed run) (ha : l.Answers outcome l') :
    l'.Hushed run := by
  cases ha
  case launch text document _ =>
    have hn {t} (ht : t ∈ (l.launch (l.nextTask text document)).tasks) (hr : t.run = run) :
        t ∈ l.tasks :=
      mem_tasks_of_launch (hr ▸ h.launched) ht
    constructor
    case launched => exact Nat.le_succ_of_le h.launched
    case raised => exact fun t ht hr => h.raised t (hn ht hr) hr
    case undecided => exact fun t ht hr => h.undecided t (hn ht hr) hr
    case mute => exact fun c hc => h.mute c <| by simpa [Tells, Lifecycle.launch] using hc
    case ending =>
      refine h.ending.imp ?_ (List.mem_append_left _)
      rintro ⟨t, ht, hr⟩
      exact ⟨t, List.mem_append_left _ ht, hr⟩
  case request => exact h.raiseActive _
  case ignore => exact h

theorem mute_step (h : l.Hushed run) (hs : l.Step o facts l') (ht : l'.Tells c) : c.run ≠ run := by
  cases hs.tells ht
  case inl ht => exact h.mute c ht
  case inr hp =>
    have ⟨t, he, hr⟩ := hp
    intro hr'
    exact h.undecided t (List.mem_of_find?_eq_some he.task) (hr.trans hr') c.records he.stage

theorem toStage {t : Task} (h : l.Hushed run) (hc : l.Coherent facts) (ht : l.task? t.run = some t)
    {stage : Stage} {sent : List RunEvent} {peak : Nat}
    (hs : l.signals.IsRaised t.signal → ∀ records, stage ≠ .settled (.finished records))
    (hl : l.sent ⊆ sent) (he : ∀ c, .completed c ∈ sent → .completed c ∈ l.sent) :
    { l.toStage t.run stage with sent := sent, peak := peak : Lifecycle }.Hushed run := by
  have ⟨_, _, _, hts, _⟩ := hc.flight.airborne_of_task? ht
  have hts' := tasks_toStage_of_singleton hts stage
  have hr (hr : t.run = run) : l.signals.IsRaised t.signal := h.raised t (by simp [hts]) hr
  constructor
  case launched => exact h.launched
  case raised =>
    intro t' ht'
    obtain rfl : t' = _ := List.mem_singleton.mp <| hts' ▸ ht'
    exact hr
  case undecided =>
    intro t' ht' hr'
    obtain rfl : t' = _ := List.mem_singleton.mp <| hts' ▸ ht'
    exact hs <| hr hr'
  case mute =>
    exact fun c ht => h.mute c <| ht.imp_left <| he c
  case ending =>
    refine h.ending.imp ?_ (hl ·)
    rintro ⟨t', ht', hr'⟩
    obtain rfl : t' = t := by simpa [hts] using ht'
    exact ⟨{ t' with stage := stage }, hts'.symm ▸ List.mem_singleton_self _, hr'⟩

-- Without work in flight all that matters is what receivers were told.
theorem of_tasks_eq_nil (hl : run.number ≤ l.launches) (ht : l.tasks = [])
    (hm : ∀ c, l.Tells c → c.run ≠ run) (he : .cancelled run ∈ l.sent) : l.Hushed run where
  launched  := hl
  raised    := by simp [ht]
  undecided := by simp [Undecided, ht]
  mute      := hm
  ending    := .inr he

theorem step (h : l.Hushed run) (hc : l.Coherent facts) (hs : l.Step o facts' l') :
    l'.Hushed run := by
  have hm (c) : l'.Tells c → c.run ≠ run := h.mute_step hs
  cases hs with
  | rest => exact h
  | start ha => exact h.answers ha
  | move ht hs =>
    refine h.toStage hc ht hs.not_finished_of_raised (List.subset_append_left _ _) fun c hc => ?_
    exact List.mem_append.mp hc |>.resolve_right <| hs.not_completed c
  | @press t next records _ _ ht _ ha =>
    have hp : (l.toStage t.run (.checking next records)).Hushed run :=
      h.toStage hc ht (fun _ _ => nofun) (List.Subset.refl _) fun _ => id
    exact hp.answers ha
  | @complete t _ _ ht hs =>
    have ⟨_, _, _, hts, _⟩ := hc.flight.airborne_of_task? ht
    refine .of_tasks_eq_nil h.launched (tasks_endTask_of_singleton hts) hm ?_
    cases h.ending
    case inl hf =>
      obtain ⟨t', ht', hr⟩ := hf
      obtain rfl : t' = t := by simpa [hts] using ht'
      exact absurd hs <| h.undecided t' ht' hr _
    case inr he => exact List.mem_append_left _ he
  | @cancel t _ ht =>
    have ⟨_, _, _, hts, _⟩ := hc.flight.airborne_of_task? ht
    refine .of_tasks_eq_nil h.launched (tasks_endTask_of_singleton hts) hm ?_
    cases h.ending
    case inl hf =>
      obtain ⟨t', ht', rfl⟩ := hf
      obtain rfl : t' = t := by simpa [hts] using ht'
      exact List.mem_append_right _ <| List.mem_singleton_self _
    case inr he => exact List.mem_append_left _ he
  | lapse ht _ hg => exact absurd (hc.generation_eq ht) hg
  | abandon => exact h.raiseActive _

end Hushed

-- Whoever is told that a run was asked to stop finds the orchestrator cancelling that run.
theorem Step.cancelling (hs : l.Step o facts' l') (hc : l.Coherent facts)
    (hm : .answered (.cancelRequested run) ∈ facts') :
    l'.phase = .cancelling ∧ l'.active.map (·.run) = some run := by
  have ha {m outcome} (h : Answers m outcome l') (hf : m.Flight)
      (ho : outcome = .cancelRequested run) :
      l'.phase = .cancelling ∧ l'.active.map (·.run) = some run := by
    cases h <;> cases ho
    case request hp =>
      have ⟨a, _, ha, _, _⟩ := hf.airborne_of_ne_idle (by simp [hp])
      simp [raiseActive_of_active ha, ha]
  cases hs with
  | start h => exact ha h hc.flight <| Incident.answered.inj (List.mem_singleton.mp hm) |>.symm
  | move _ hs => exact absurd hm <| hs.not_answered _
  | @press t next records _ _ ht _ h =>
    have hf : (l.toStage t.run (.checking next records)).Flight :=
      hc.toStage ht _ _ hc.peak |>.flight
    exact ha h hf <| Incident.answered.inj (List.mem_singleton.mp hm) |>.symm
  | abandon => cases List.mem_singleton.mp hm
  | _ => cases hm

end Lifecycle

namespace State

variable {o : Orchestrator} {s s' s₀ : State} {t : Task} {run : RunId}

theorem shared_start (s : State) (text : String) (document : Document) :
    (s.start text document).2.shared = s.shared := by
  simp only [start]
  split <;> rfl

theorem entered_start (s : State) (text : String) (document : Document) :
    (s.start text document).2.entered = s.entered := by
  simp only [start]
  split <;> rfl

theorem cleared_of_step? {visits : Visits} (h : s.step? o visits t = some s') (hl : t.stage = .launched) :
    s'.shared = { s.shared with problems := s.shared.problems.remove .sanity } ∧ s'.entered = s.entered := by
  simp only [step?, hl] at h
  cases h
  exact ⟨rfl, rfl⟩

-- Between the removal of what was found before and the publication, the work of a run leaves what it
-- shares with others alone.
theorem kept_of_step? {visits : Visits} (h : s.step? o visits t = some s') (hl : t.stage ≠ .launched)
    (hn : ∀ outcome, t.stage ≠ .settled outcome) : s'.shared = s.shared ∧
      (s'.entered = s.entered ∨ ∃ spec, t.spec = .ok spec ∧ s'.entered = s.entered ++ [t.run]) := by
  cases hs : t.stage <;> simp only [step?, hs] at h
  case launched => exact absurd hs hl
  case cleared =>
    cases ht : t.spec <;> rw [ht] at h <;> cases h
    case error => exact ⟨rfl, .inl rfl⟩
    case ok spec => exact ⟨rfl, .inr ⟨spec, rfl, rfl⟩⟩
  case checking work records =>
    cases work <;> simp only [work?] at h
    case done result =>
      rcases result with e | _
      case error => cases e <;> cases h <;> exact ⟨rfl, .inl rfl⟩
      case ok => cases h; exact ⟨rfl, .inl rfl⟩
    case press next =>
      cases h
      have hs := shared_start (s.toStage t.run (.checking next records)) "" { name := "toggle" }
      have he := entered_start (s.toStage t.run (.checking next records)) "" { name := "toggle" }
      exact ⟨hs, .inl he⟩
    case gate =>
      split at h
      · cases h; exact ⟨rfl, .inl rfl⟩
      · split at h <;> cases h; exact ⟨rfl, .inl rfl⟩
    all_goals cases h; exact ⟨rfl, .inl rfl⟩
  case ended => cases h; exact ⟨rfl, .inl rfl⟩
  case settled outcome => exact absurd hs <| hn outcome

-- Work that does not publish registers nothing and reports nothing.
theorem shared_of_step? {visits : Visits} (h : s.step? o visits t = some s')
    (hn : ∀ records, t.stage ≠ .settled (.finished records)) :
    s'.shared.registry = s.shared.registry ∧
      s'.shared.problems.entries ⊆ s.shared.problems.entries := by
  have same {s' : State} (h : s'.shared = s.shared) : s'.shared.registry = s.shared.registry ∧
      s'.shared.problems.entries ⊆ s.shared.problems.entries :=
    h ▸ ⟨rfl, List.Subset.refl _⟩
  cases hs : t.stage
  case launched =>
    rw [cleared_of_step? h hs |>.left]
    exact ⟨rfl, fun _ hp => List.mem_filter.mp hp |>.left⟩
  case settled outcome =>
    simp only [step?, hs] at h
    cases h
    cases outcome
    case finished records => exact absurd hs <| hn records
    case cancelled =>
      refine same ?_
      simp only [finish]
      split <;> rfl
  all_goals exact same <| kept_of_step? h (by simp [hs]) (by simp [hs]) |>.left

-- What others do not learn of a run, whatever happens from now on. All that it tells at its end is that
-- it was cancelled.
structure Silenced (o : Orchestrator) (s : State) (run : RunId) : Prop where
  events   : ∀ history c, .completed c ∈ (s.afterAll o history).channel.sent → c.run ≠ run
  last     : ∀ history c, (s.afterAll o history).last = some c → c.run ≠ run
  tokens   : ∀ history visits,
    ((s.afterAll o history).after o (.work run visits)).shared.registry =
      (s.afterAll o history).shared.registry
  problems : ∀ history visits,
    ((s.afterAll o history).after o (.work run visits)).shared.problems.entries ⊆
      (s.afterAll o history).shared.problems.entries
  ending   : ∀ history, (s.afterAll o history).task? run = none →
    .cancelled run ∈ (s.afterAll o history).channel.sent

theorem shared_of_undecided (h : s.lifecycle.Undecided run) (visits : Visits) :
    (s.after o (.work run visits)).shared.registry = s.shared.registry ∧
      (s.after o (.work run visits)).shared.problems.entries ⊆ s.shared.problems.entries := by
  simp only [after, advance?]
  cases ht : s.task? run
  case none => exact ⟨rfl, List.Subset.refl _⟩
  case some t =>
    have hn := h t (List.mem_of_find?_eq_some ht) (run_of_task? ht)
    simp only [Option.bind_some]
    cases hs : s.step? o visits t
    case none => exact ⟨rfl, List.Subset.refl _⟩
    case some => exact shared_of_step? hs hn

theorem silenced_of_hushed {facts : List Incident} (hc : s.lifecycle.Coherent facts)
    (h : s.lifecycle.Hushed run) : s.Silenced o run := by
  have hh (history) : (s.afterAll o history).lifecycle.Hushed run :=
    hc.induction (motive := fun _ l => l.Hushed run) h (fun hc h hs => h.step hc hs) history
  constructor
  case events => exact fun history c hc => (hh history).mute c <| .inl hc
  case last => exact fun history c hc => (hh history).mute c <| .inr hc
  case tokens => exact fun history visits => shared_of_undecided (hh history).undecided visits |>.left
  case problems => exact fun history visits => shared_of_undecided (hh history).undecided visits |>.right
  case ending =>
    intro history ht
    refine (hh history).ending.resolve_left fun ⟨t, hm, hr⟩ => ?_
    have hn := List.find?_eq_none.mp ht t hm
    simp [hr] at hn

-- A run that has passed its last look publishes in its next step, whatever it was asked meanwhile.
theorem completed_of_settled {facts : List Incident} {records : List Record}
    (hc : s.lifecycle.Coherent facts) (ht : s.task? run = some t)
    (hs : t.stage = .settled (.finished records)) :
    ∃ c, .completed c ∈ (s.after o (.work run [])).channel.sent ∧ c.run = run := by
  obtain rfl := run_of_task? ht
  have hg : s.generation = t.generation := hc.generation_eq ht
  have ha : s.after o (.work t.run []) = s.finish o [] t (.finished records) := by
    simp [after, advance?, ht, step?, hs]
  rw [ha, finish, if_pos hg]
  exact ⟨_, List.mem_append_right _ <| List.mem_singleton_self _, rfl⟩

end State

-- A run that was asked to stop is silent if and only if its work had not passed the last look at the
-- flag when the request came.
theorem silenced_iff_undecided {o : Orchestrator} {s : State} {history : List Happening}
    {h : Happening} {run : RunId} (hi : o.initial = .ok s)
    (hr : .answered (.cancelRequested run) ∈ (s.afterAll o history).incidents h) :
    (s.afterAll o (history ++ [h])).Silenced o run ↔
      ∀ t records, (s.afterAll o (history ++ [h])).task? run = some t →
        t.stage ≠ .settled (.finished records) := by
  have hc := State.coherent_of_initial hi history
  have hc' := State.coherent_of_initial hi (history ++ [h])
  constructor
  case mp =>
    intro hs t records ht hf
    have ⟨c, hm, hr⟩ := State.completed_of_settled (o := o) hc' ht hf
    exact hs.events [.work run []] c hm hr
  case mpr =>
    intro hu
    have ⟨hp, ha⟩ := (s.afterAll o history).after_step o h |>.cancelling hc hr
    rw [← State.afterAll_concat] at hp ha
    refine State.silenced_of_hushed hc' <| .of_request hc' hp ha ?_ fun c => .of_tells hi _
    exact fun t ht hr records => hu t records (hr ▸ hc'.flight.task?_of_mem ht)

-- A run that is asked to stop while its runner is at work.
theorem silenced_in_the_runner :
    let o : Orchestrator := { runner := Runner.scripted [.record (.violated "a" "b")] }
    let s : State := { channel := { capacity := 64 } }
    let d : Document := { name := "m" }
    let history : List Happening := .start "" d :: List.replicate 3 (.work ⟨1⟩ [])
    o.initial = .ok s ∧
      .answered (.cancelRequested ⟨1⟩) ∈ (s.afterAll o history).incidents (.start "" d) ∧
        (s.afterAll o (history ++ [.start "" d])).Silenced o ⟨1⟩ := by
  intro o s d history
  have hi : o.initial = .ok s := State.initial_of_runner _
  have hr : .answered (.cancelRequested ⟨1⟩) ∈ (s.afterAll o history).incidents (.start "" d) :=
    State.answered_of_running (by decide +kernel) (by decide +kernel) "" d
  refine ⟨hi, hr, (silenced_iff_undecided hi hr).mpr fun t records ht hs => ?_⟩
  cases ht
  cases hs

-- The same run is asked to stop when it has looked at the flag for the last time. It publishes its
-- record, and nobody is told that it was cancelled.
theorem completed_after_request :
    let r : Record := { check := "a", message := "b", satisfied := false, trace := some .done }
    let o : Orchestrator := { runner := Runner.scripted [.record r] }
    let s : State := { channel := { capacity := 64 } }
    let d : Document := { name := "m" }
    let history : List Happening := .start "" d :: List.replicate 6 (.work ⟨1⟩ [])
    let requested := s.afterAll o (history ++ [.start "" d])
    let published := requested.after o (.work ⟨1⟩ [])
    o.initial = .ok s ∧
      .answered (.cancelRequested ⟨1⟩) ∈ (s.afterAll o history).incidents (.start "" d) ∧
        published.last.map (·.run) = some ⟨1⟩ ∧ published.published.length = 1 ∧
          published.shared.problems.entries.length = 1 ∧ .cancelled ⟨1⟩ ∉ published.channel.sent ∧
            ¬requested.Silenced o ⟨1⟩ := by
  refine ⟨State.initial_of_runner _, State.answered_of_running (by decide) (by decide) .., by decide,
    by decide, by decide, by decide, fun h => ?_⟩
  exact h.last [.work ⟨1⟩ []] _ rfl rfl

end ModelAudit.Orchestrator

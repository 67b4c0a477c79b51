import ModelAudit.Proofs.Activity.Cancellation
import ModelAudit.Proofs.Orchestrator.SingleFlight
import ModelAudit.Proofs.Runner.Cancellation

namespace ModelAudit.Orchestrator

open Incident

inductive Closing where
  | completed (completion : Completion)
  | cancelled

def Closing.event (run : RunId) : Closing → RunEvent
  | completed completion => .completed completion
  | cancelled => .cancelled run

structure Block where
  run     : RunId
  digest  : Option String
  labels  : List String
  closing : Option Closing

namespace Block

def events (b : Block) : List RunEvent :=
  .started b.run b.digest :: b.labels.mapIdx (fun i label => .progress b.run (i + 1) label) ++
    b.closing.toList.map (Closing.event b.run)

-- The block of a run that is still in flight.
def opened (facts : List Incident) (t : Task) : Block where
  run     := t.run
  digest  := t.digest
  labels  := (recordsOf t.run facts).map (·.check)
  closing := none

-- A block tells what has happened in the course of its run.
structure Faithful (facts : List Incident) (b : Block) : Prop where
  labels    : b.labels = (recordsOf b.run facts).map (·.check)
  completed : ∀ c, b.closing = some (.completed c) → c.run = b.run ∧
    (.returned b.run (.ok ()) ∈ facts → c.records.map (·.check) = b.labels)
  cancelled : b.closing = some .cancelled → Asked b.run facts

variable {facts more : List Incident} {b : Block} {t : Task}

theorem Faithful.append (h : b.Faithful facts) (hu : Untouched b.run more) :
    b.Faithful (facts ++ more) where
  labels    := hu.recordsOf_append_eq facts ▸ h.labels
  completed := fun c hc => (h.completed c hc).imp_right fun hl hm => hl <| hu.returned_of_append hm
  cancelled := fun hc => (h.cancelled hc).append

theorem faithful_opened (facts : List Incident) (t : Task) : (opened facts t).Faithful facts where
  labels    := rfl
  completed := nofun
  cancelled := nofun

theorem opened_append (hu : Untouched t.run more) (facts : List Incident) :
    opened (facts ++ more) t = opened facts t := by
  simp only [opened, hu.recordsOf_append_eq]

theorem events_opened_delivered (record : Record) :
    (opened (facts ++ [.delivered t.run record]) t).events =
      (opened facts t).events ++
        [.progress t.run ((recordsOf t.run facts).length + 1) record.check] := by
  simp [events, opened, recordsOf_delivered]

theorem events_close (closing : Closing) :
    { opened facts t with closing := some closing : Block }.events =
      (opened facts t).events ++ [closing.event t.run] := by
  simp [events, opened]

end Block

structure Outcome.Backed (facts : List Incident) (run : RunId) (raised : Prop) (outcome : Outcome) :
    Prop where
  finished  : ∀ records, outcome = .finished records →
    .returned run (.ok ()) ∈ facts → records = recordsOf run facts
  cancelled : ∀ n, outcome = .cancelled n → raised

-- What is known of a run whose work is at a stage: nothing has come of it before its runner was entered,
-- all that its runner delivers is kept, and it is cancelled only if its signal was raised.
inductive Stage.Backed (facts : List Incident) (run : RunId) (raised : Prop) : Stage → Prop
  | launched (h : Untouched run facts) : Backed facts run raised .launched
  | cleared (h : Untouched run facts) : Backed facts run raised .cleared
  | checking {work records asked} (hl : records = recordsOf run facts)
    (hn : ∀ result, .returned run result ∉ facts) (hw : work.StopsOnlyWhenAsked asked)
    (hr : asked = true → raised) : Backed facts run raised (.checking work records)
  | ended {outcome} (h : outcome.Backed facts run raised) : Backed facts run raised (.ended outcome)
  | settled {outcome} (h : outcome.Backed facts run raised) : Backed facts run raised (.settled outcome)

section Backed

variable {facts more : List Incident} {run : RunId} {raised raised' : Prop}

theorem Outcome.Backed.append {outcome : Outcome} (h : outcome.Backed facts run raised)
    (hu : Untouched run more) (hr : raised → raised') : outcome.Backed (facts ++ more) run raised' where
  finished  := fun records he hm =>
    hu.recordsOf_append_eq facts ▸ h.finished records he (hu.returned_of_append hm)
  cancelled := fun n he => hr <| h.cancelled n he

theorem Stage.Backed.append {stage : Stage} (h : stage.Backed facts run raised)
    (hu : Untouched run more) (hr : raised → raised') : stage.Backed (facts ++ more) run raised' := by
  cases h
  case launched h => exact .launched fun f hf => List.mem_append.mp hf |>.elim (h f) (hu f)
  case cleared h => exact .cleared fun f hf => List.mem_append.mp hf |>.elim (h f) (hu f)
  case checking hl hn hw ha =>
    refine .checking (hl.trans (hu.recordsOf_append_eq facts).symm) ?_ hw (hr ∘ ha)
    exact fun result hm => hn result <| hu.returned_of_append hm
  case ended h => exact .ended <| h.append hu hr
  case settled h => exact .settled <| h.append hu hr

theorem Outcome.Backed.of_not_returned (h : .returned run (.ok ()) ∉ facts) (records : List Record) :
    (Outcome.finished records).Backed facts run raised where
  finished  := fun _ _ hm => absurd hm h
  cancelled := nofun

theorem Outcome.Backed.of_raised (h : raised) (n : Nat) :
    (Outcome.cancelled n).Backed facts run raised where
  finished  := nofun
  cancelled := fun _ _ => h

namespace Stage.Backed

variable {stage : Stage} {outcome : Outcome} {work : Activity (Except AuditError Unit)}
  {records : List Record}

theorem untouched (h : stage.Backed facts run raised) (hs : stage = .launched ∨ stage = .cleared) :
    Untouched run facts := by
  cases h
  case launched hu => exact hu
  case cleared hu => exact hu
  all_goals simp at hs

theorem at_work (h : stage.Backed facts run raised) (hs : stage = .checking work records) :
    records = recordsOf run facts ∧ (∀ result, .returned run result ∉ facts) ∧
      ∃ asked, work.StopsOnlyWhenAsked asked ∧ (asked = true → raised) := by
  cases h
  case checking hl hn hw hr =>
    obtain ⟨rfl, rfl⟩ := Stage.checking.inj hs
    exact ⟨hl, hn, _, hw, hr⟩
  all_goals cases hs

theorem outcome_backed (h : stage.Backed facts run raised)
    (hs : stage = .ended outcome ∨ stage = .settled outcome) : outcome.Backed facts run raised := by
  cases h
  case ended h => cases hs <;> rename_i hs <;> cases hs; exact h
  case settled h => cases hs <;> rename_i hs <;> cases hs; exact h
  all_goals simp at hs

end Stage.Backed

-- A stage of the work is backed if the one before is. Of a runner that stops without being asked no more
-- can be said than of one that was asked.
theorem Task.Moves.backed {o : Orchestrator} {signals : Signals} {t : Task} {events : List RunEvent}
    {stage : Stage} (h : t.Moves o signals more events stage)
    (hb : t.stage.Backed facts t.run raised) (hs : signals.IsRaised t.signal → raised)
    (ho : (∀ spec d, (o.runner spec d).StopsOnlyWhenAsked false) ∨ raised) :
    stage.Backed (facts ++ more) t.run raised := by
  cases h
  case clear hs => exact .cleared <| by simpa using hb.untouched <| .inl hs
  case refuse hs _ =>
    have hu := hb.untouched <| .inr hs
    exact .ended <| .of_not_returned (by simpa using hu.not_returned _) _
  case enter hs _ =>
    have hu : Untouched t.run (facts ++ []) := by simpa using hb.untouched <| .inr hs
    rcases ho with ho | hr
    · exact .checking hu.recordsOf_eq_nil.symm hu.not_returned (ho _ _) nofun
    · exact .checking hu.recordsOf_eq_nil.symm hu.not_returned (.of_asked _) fun _ => hr
  case poll hs' =>
    have ⟨hl, hn, asked, hw, hr⟩ := hb.at_work hs'
    rw [List.append_nil]
    cases hw with | poll hf ht =>
      by_cases hi : signals.IsRaised t.signal
      case pos => exact .checking hl hn (by simpa [hi] using ht) fun _ => hs hi
      case neg =>
        cases asked
        case true => exact .checking hl hn (.of_asked _) hr
        case false =>
          refine .checking hl hn (?_ : Activity.StopsOnlyWhenAsked false _) nofun
          simpa [hi] using hf rfl
  case emit hs =>
    have ⟨hl, hn, _, hw, hr⟩ := hb.at_work hs
    rw [List.append_nil]
    cases hw with | emit hw => exact .checking hl hn hw hr
  case deliver record _ _ hs =>
    have ⟨hl, hn, _, hw, hr⟩ := hb.at_work hs
    cases hw with | deliver hw =>
      exact .checking (by rw [hl, recordsOf_delivered]) (by simpa using hn) hw hr
  case pass hs =>
    have ⟨hl, hn, _, hw, hr⟩ := hb.at_work hs
    rw [List.append_nil]
    cases hw with | gate hw _ => exact .checking hl hn hw hr
  case stop hs' hr =>
    have ⟨hl, hn, _, hw, _⟩ := hb.at_work hs'
    rw [List.append_nil]
    cases hw with | gate _ hw => exact .checking hl hn (hw rfl) fun _ => hs hr
  case finish hs =>
    have ⟨hl, _, _⟩ := hb.at_work hs
    refine .ended ⟨?_, nofun⟩
    rintro _ ⟨⟩ _
    rw [hl, recordsOf_returned]
  case cancel hs =>
    have ⟨_, _, _, hw, hr⟩ := hb.at_work hs
    cases hw with | done ha => exact .ended <| .of_raised (hr <| ha rfl) _
  case fail hs _ =>
    have ⟨_, hn, _⟩ := hb.at_work hs
    exact .ended <| .of_not_returned (by simpa using hn _) _
  case panic hs =>
    have ⟨_, hn, _⟩ := hb.at_work hs
    exact .ended <| .of_not_returned (by simpa using hn _) _
  case approve hs _ => exact .settled <| hb.outcome_backed (.inl hs) |>.append nofun id
  case discard hr => exact .settled <| .of_raised (hs hr) _
  case settle hs => exact .settled <| hb.outcome_backed (.inl hs) |>.append nofun id

-- What receivers are told in a step goes on with the block of the run.
theorem Task.Moves.events {o : Orchestrator} {signals : Signals} {t : Task} {events : List RunEvent}
    {stage : Stage} (h : t.Moves o signals more events stage)
    (hb : t.stage.Backed facts t.run (signals.IsRaised t.signal)) :
    (Block.opened (facts ++ more) t).events = (Block.opened facts t).events ++ events := by
  cases h
  case deliver hs =>
    have ⟨hl, _, _⟩ := hb.at_work hs
    rw [hl]
    exact Block.events_opened_delivered _
  case finish | cancel | fail => simp [Block.opened, recordsOf_returned]
  all_goals simp

theorem Task.Moves.worker? {o : Orchestrator} {signals : Signals} {t : Task} {events : List RunEvent}
    {stage : Stage} (h : t.Moves o signals more events stage) :
    ∀ f ∈ more, f.worker? = some t.run ∧ f.launched? = none := by
  intro f hf
  cases h
  case deliver | finish | cancel | fail =>
    obtain rfl := List.mem_singleton.mp hf
    exact ⟨rfl, rfl⟩
  all_goals cases hf

end Backed

namespace Lifecycle

-- The blocks of all runs, of which the last one is in flight perhaps and the others are over.
def blocks (facts : List Incident) (l : Lifecycle) (past : List Block) : List Block :=
  past ++ l.tasks.map (Block.opened facts)

structure Told (facts : List Incident) (l : Lifecycle) (past : List Block) : Prop where
  sent     : l.sent = (l.blocks facts past).flatMap Block.events
  runs     : (l.blocks facts past).map (·.run) = launched facts
  order    : launched facts = (List.range l.launches).map fun i => ⟨i + 1⟩
  workers  : ∀ f ∈ facts, ∀ run, f.worker? = some run → run ∈ launched facts
  closed   : ∀ b ∈ past, b.closing.isSome
  faithful : ∀ b ∈ past, b.Faithful facts
  backed   : ∀ t ∈ l.tasks, t.stage.Backed facts t.run (l.signals.IsRaised t.signal)

namespace Told

variable {o : Orchestrator} {facts more : List Incident} {l l' : Lifecycle} {past : List Block}
  {t : Task}

theorem initial (channel : Channel RunEvent) (h : channel.sent = []) :
    ({ channel := channel } : State).lifecycle.Told [] [] where
  sent     := h
  runs     := rfl
  order    := rfl
  workers  := fun _ h => absurd h List.not_mem_nil
  closed   := fun _ h => absurd h List.not_mem_nil
  faithful := fun _ h => absurd h List.not_mem_nil
  backed   := fun _ h => absurd h List.not_mem_nil

theorem nodup (h : l.Told facts past) : (launched facts).Nodup := by
  rw [h.order]
  refine List.Pairwise.map _ (fun _ _ hn he => ?_) List.nodup_range
  exact hn <| Nat.succ.inj <| RunId.mk.inj he

theorem untouched_of_launches_lt (h : l.Told facts past) {n : Nat} (hn : l.launches ≤ n) :
    Untouched ⟨n + 1⟩ facts := by
  intro f hf hw
  have hm := h.workers f hf _ hw
  simp only [h.order, List.mem_map, List.mem_range, RunId.mk.injEq, Nat.succ.injEq] at hm
  omega

theorem backed_of_singleton (h : l.Told facts past) (ht : l.tasks = [t]) :
    t.stage.Backed facts t.run (l.signals.IsRaised t.signal) :=
  h.backed t <| ht ▸ List.mem_singleton_self t

-- Incidents that no run is at work in leave the blocks as they are.
theorem quiet (h : l.Told facts past) (hq : ∀ f ∈ more, f.worker? = none ∧ f.launched? = none)
    (he : l'.sent = l.sent) (ht : l'.tasks = l.tasks) (hn : l'.launches = l.launches)
    (hr : ∀ x, l.signals.IsRaised x → l'.signals.IsRaised x) : l'.Told (facts ++ more) past := by
  have hu (run) : Untouched run more := fun f hf => by simp [hq f hf]
  have hl := launched_append_eq (fun f hf => (hq f hf).right) facts
  have hb : l'.blocks (facts ++ more) past = l.blocks facts past := by
    have ho : Block.opened (facts ++ more) = Block.opened facts :=
      funext fun _ => Block.opened_append (hu _) facts
    rw [blocks, blocks, ht, ho]
  constructor
  case sent => rw [he, hb, h.sent]
  case runs => rw [hb, hl, h.runs]
  case order => rw [hl, hn, h.order]
  case workers =>
    intro f hf run hw
    rw [hl]
    cases List.mem_append.mp hf
    case inl hf => exact h.workers f hf run hw
    case inr hf => exact absurd hw <| hu run f hf
  case closed => exact h.closed
  case faithful => exact fun b hb => (h.faithful b hb).append <| hu _
  case backed => exact fun t hm => (h.backed t (ht ▸ hm)).append (hu _) (hr _)

-- A step of the run in flight goes on with its block.
theorem goOn (h : l.Told facts past) (ht : l.tasks = [t]) {stage : Stage} {events : List RunEvent}
    (hw : ∀ f ∈ more, f.launched? = none ∧ ∀ run, f.worker? = some run → run = t.run)
    (ht' : l'.tasks = [{ t with stage := stage }]) (hs : l'.sent = l.sent ++ events)
    (hn : l'.launches = l.launches)
    (he : (Block.opened (facts ++ more) t).events = (Block.opened facts t).events ++ events)
    (hb : stage.Backed (facts ++ more) t.run (l'.signals.IsRaised t.signal)) :
    l'.Told (facts ++ more) past := by
  have hl := launched_append_eq (fun f hf => (hw f hf).left) facts
  have hr := h.runs
  simp only [blocks, ht, List.map_append, List.map_cons, List.map_nil, Block.opened] at hr
  constructor
  case sent =>
    rw [hs, h.sent, blocks, blocks, ht, ht']
    simpa [Block.opened] using he.symm
  case runs =>
    rw [hl, ← hr, blocks, ht']
    simp [Block.opened]
  case order => rw [hl, hn, h.order]
  case workers =>
    intro f hf run hr'
    rw [hl]
    cases List.mem_append.mp hf
    case inl hf => exact h.workers f hf run hr'
    case inr hf => simp [← hr, (hw f hf).right run hr']
  case closed => exact h.closed
  case faithful =>
    -- No two blocks belong to the same run, so what the run in flight does is none of their business.
    intro b hb
    have hd : b.run ≠ t.run := by
      have hd := hr ▸ h.nodup
      rw [List.nodup_append] at hd
      exact hd.right.right _ (List.mem_map_of_mem hb) _ (List.mem_singleton_self _)
    exact (h.faithful b hb).append fun f hf hr' => hd <| (hw f hf).right _ hr'
  case backed =>
    intro t' hm
    rw [ht', List.mem_singleton] at hm
    exact hm ▸ hb

-- The end of a run closes its block.
theorem close (h : l.Told facts past) (ht : l.tasks = [t]) (closing : Closing)
    (ht' : l'.tasks = []) (hs : l'.sent = l.sent ++ [closing.event t.run])
    (hn : l'.launches = l.launches)
    (hf : { Block.opened facts t with closing := some closing : Block }.Faithful facts) :
    l'.Told facts (past ++ [{ Block.opened facts t with closing := some closing }]) := by
  have hr := h.runs
  simp only [blocks, ht, List.map_append, List.map_cons, List.map_nil] at hr
  constructor
  case sent =>
    rw [hs, h.sent, blocks, blocks, ht, ht']
    simp [Block.events_close]
  case runs =>
    rw [← hr, blocks, ht']
    simp
  case order => rw [hn, h.order]
  case workers => exact h.workers
  case closed =>
    intro b hb
    cases List.mem_append.mp hb
    case inl hb => exact h.closed b hb
    case inr hb => cases List.mem_singleton.mp hb; rfl
  case faithful =>
    intro b hb
    cases List.mem_append.mp hb
    case inl hb => exact h.faithful b hb
    case inr hb => cases List.mem_singleton.mp hb; exact hf
  case backed => simp [ht']

theorem launch (h : l.Told facts past) (ht : l.tasks = []) (text : String) (document : Document) :
    (l.launch (l.nextTask text document)).Told
      (facts ++ [.answered (.started ⟨l.launches + 1⟩)]) past := by
  have hu : Untouched ⟨l.launches + 1⟩ (facts ++ [.answered (.started ⟨l.launches + 1⟩)]) := by
    intro f hf
    cases List.mem_append.mp hf
    case inl hf => exact h.untouched_of_launches_lt (Nat.le_refl _) f hf
    case inr hf => cases List.mem_singleton.mp hf; simp [worker?]
  have hl : launched (facts ++ [.answered (.started ⟨l.launches + 1⟩)]) =
      launched facts ++ [⟨l.launches + 1⟩] :=
    launched_append
  have hr := h.runs
  simp only [blocks, ht, List.map_nil, List.append_nil] at hr
  constructor
  case sent =>
    have hb := hu.recordsOf_eq_nil
    simp [Lifecycle.launch, h.sent, blocks, ht, Block.opened, Block.events, nextTask, hb]
  case runs => simp [hl, ← hr, Lifecycle.launch, blocks, ht, Block.opened, nextTask]
  case order => simp [hl, h.order, Lifecycle.launch, List.range_succ]
  case workers =>
    intro f hf run hw
    rw [hl]
    cases List.mem_append.mp hf
    case inl hf => exact List.mem_append_left _ <| h.workers f hf run hw
    case inr hf => cases List.mem_singleton.mp hf; cases hw
  case closed => exact h.closed
  case faithful =>
    refine fun b hb => (h.faithful b hb).append fun f hf => ?_
    cases List.mem_singleton.mp hf
    simp [worker?]
  case backed =>
    intro t hm
    simp only [Lifecycle.launch, ht, List.nil_append, List.mem_singleton] at hm
    subst hm
    exact .launched hu

-- Whoever presses the button while a run is in flight at most raises its signal.
theorem quiet_of_answers {outcome : StartOutcome} (h : l.Told facts past) (ha : l.Answers outcome l')
    (hp : l.phase ≠ .idle) : l'.Told (facts ++ [.answered outcome]) past := by
  cases ha
  case launch hi => exact absurd hi hp
  case ignore => exact h.quiet (by simp [worker?, launched?]) rfl rfl rfl fun _ => id
  case request =>
    exact h.quiet (by simp [worker?, launched?]) l.sent_raiseActive l.tasks_raiseActive
      l.launches_raiseActive fun _ => isRaised_raiseActive

-- A run that presses the button itself is asked to stop from then on.
theorem press {outcome : StartOutcome} {next : Activity (Except AuditError Unit)}
    {records : List Record} (h : l.Told facts past) (hc : l.Coherent facts)
    (ht : l.task? t.run = some t) (hs : t.stage = .checking (.press next) records)
    (ha : (l.toStage t.run (.checking next records)).Answers outcome l') :
    l'.Told (facts ++ [.answered outcome]) past := by
  have ⟨hp, a, hac, hts, hw⟩ := hc.flight.airborne_of_task? ht
  have ⟨hl, hn, _, hw', _⟩ := (h.backed_of_singleton hts).at_work hs
  have ht' := tasks_toStage_of_singleton hts (.checking next records)
  have hu : Untouched t.run [.answered outcome] := by simp [Untouched, worker?]
  have he := congrArg Block.events <| Block.opened_append hu facts
  -- What is known of the runner depends on the signal, which the answer has raised at the latest.
  have hb (hr : l'.signals.IsRaised t.signal) : (Stage.checking next records).Backed
      (facts ++ [.answered outcome]) t.run (l'.signals.IsRaised t.signal) := by
    cases hw' with | press hw' =>
      exact .checking (hl.trans (hu.recordsOf_append_eq facts).symm) (by simpa using hn) hw' fun _ => hr
  cases ha
  case launch hi => exact absurd hi hp
  case ignore hi =>
    refine h.goOn hts (by simp [worker?, launched?]) ht' (List.append_nil _).symm rfl
      (by simpa using he) <| hb ?_
    rw [hw.signal]
    exact hc.raised a hac hi
  case request =>
    have hra : (l.toStage t.run (.checking next records)).raiseActive = _ := raiseActive_of_active hac
    rw [hra] at hb ⊢
    refine h.goOn hts (by simp [worker?, launched?]) ht' (List.append_nil _).symm rfl
      (by simpa using he) <| hb ?_
    exact Signals.isRaised_raise.mpr <| .inl hw.signal

theorem step {facts' : List Incident} (h : l.Told facts past) (hc : l.Coherent facts)
    (ho : ∀ spec d, (o.runner spec d).StopsOnlyWhenAsked false) (hs : l.Step o facts' l') :
    ∃ past', l'.Told (facts ++ facts') past' := by
  cases hs with
  | rest => exact ⟨past, h.quiet nofun rfl rfl rfl fun _ => id⟩
  | start ha =>
    by_cases hp : l.phase = .idle
    case neg => exact ⟨past, h.quiet_of_answers ha hp⟩
    case pos =>
      cases ha with
      | launch => exact ⟨past, h.launch (hc.flight.grounded_of_idle hp).right ..⟩
      | request hr => cases hp.symm.trans hr
      | ignore hi => cases hp.symm.trans hi
  | move ht hm =>
    have ⟨_, _, _, hts, _⟩ := hc.flight.airborne_of_task? ht
    have hb := h.backed_of_singleton hts
    refine ⟨past, h.goOn hts ?_ (tasks_toStage_of_singleton hts _) rfl rfl (hm.events hb)
      (hm.backed hb id (.inl ho))⟩
    intro f hf
    have ⟨hw, hl⟩ := hm.worker? f hf
    exact ⟨hl, fun run hr => Option.some.inj <| hr.symm.trans hw⟩
  | press ht hs ha => exact ⟨past, h.press hc ht hs ha⟩
  | @complete t _ completion ht hs _ hr hcr =>
    have ⟨_, _, _, hts, _⟩ := hc.flight.airborne_of_task? ht
    have hb := h.backed_of_singleton hts |>.outcome_backed <| .inr hs
    rw [List.append_nil]
    refine ⟨_, h.close hts (.completed completion) (tasks_endTask_of_singleton hts) rfl rfl ?_⟩
    refine ⟨rfl, ?_, nofun⟩
    rintro _ ⟨⟩
    exact ⟨hr, fun hm => by rw [hcr, hb.finished _ rfl hm]; rfl⟩
  | @cancel t _ ht hs =>
    have ⟨_, a, ha, hts, hw⟩ := hc.flight.airborne_of_task? ht
    have hb := h.backed_of_singleton hts |>.outcome_backed <| .inr hs
    have hr : l.signals.IsRaised a.signal := hw.signal ▸ hb.cancelled _ rfl
    rw [List.append_nil]
    refine ⟨_, h.close hts .cancelled (tasks_endTask_of_singleton hts) rfl rfl ?_⟩
    refine ⟨rfl, nofun, fun _ => ?_⟩
    -- The signal was raised by somebody, either by a request or by the owner who went.
    have hq := (hc.cause a ha hr).imp_left And.right
    rwa [← hw.run] at hq
  | lapse ht _ hg => exact absurd (hc.generation_eq ht) hg
  | abandon =>
    exact ⟨past, h.quiet (by simp [worker?, launched?]) l.sent_raiseActive l.tasks_raiseActive
      l.launches_raiseActive fun _ => isRaised_raiseActive⟩

theorem afterAll {s : State} (h : s.lifecycle.Told facts past) (hc : s.lifecycle.Coherent facts)
    (ho : ∀ spec d, (o.runner spec d).StopsOnlyWhenAsked false) (history : List Happening) :
    ∃ past', (s.afterAll o history).lifecycle.Told (facts ++ s.chronicle o history) past' :=
  hc.induction (motive := fun facts l => ∃ past, l.Told facts past) ⟨past, h⟩
    (fun hc ⟨_, h⟩ hs => h.step hc ho hs) history

theorem closed_of_mem_dropLast (h : l.Told facts past) (hf : l.Flight) {b : Block}
    (hb : b ∈ (l.blocks facts past).dropLast) : b.closing.isSome := by
  refine h.closed b ?_
  cases hf
  case grounded ht => exact List.dropLast_subset _ <| by simpa [blocks, ht] using hb
  case airborne ht _ => simpa [blocks, ht] using hb

theorem faithful_of_mem_blocks (h : l.Told facts past) {b : Block}
    (hb : b ∈ l.blocks facts past) : b.Faithful facts := by
  cases List.mem_append.mp hb
  case inl hb => exact h.faithful b hb
  case inr hb =>
    obtain ⟨t, _, rfl⟩ := List.mem_map.mp hb
    exact Block.faithful_opened facts t

end Told

end Lifecycle

-- Events that are made up of the blocks of all runs in the order in which they were launched. The last
-- run may be in flight still.
structure Narrative (facts : List Incident) (sent : List RunEvent) (blocks : List Block) : Prop where
  sent     : sent = blocks.flatMap Block.events
  runs     : blocks.map (·.run) = launched facts
  distinct : (launched facts).Nodup
  closed   : ∀ b ∈ blocks.dropLast, b.closing.isSome
  faithful : ∀ b ∈ blocks, b.Faithful facts

-- Whatever happens, as long as the runner does not say that it was cancelled without being asked to stop.
theorem events_in_blocks {o : Orchestrator} {s : State} {history : List Happening}
    (h : o.initial = .ok s) (ho : ∀ spec d, (o.runner spec d).StopsOnlyWhenAsked false) :
    ∃ blocks, Narrative (s.chronicle o history) (s.afterAll o history).channel.sent blocks := by
  have hc := State.coherent_of_initial h history
  have ⟨capacity, hs⟩ := State.eq_of_initial h
  subst hs
  have ⟨past, ht⟩ := Lifecycle.Told.initial { capacity := capacity } rfl
    |>.afterAll (.initial _) ho history
  refine ⟨_, ht.sent, ht.runs, ht.nodup, ?closed, ?faithful⟩
  case closed => exact fun _ hb => ht.closed_of_mem_dropLast hc.flight hb
  case faithful => exact fun _ hb => ht.faithful_of_mem_blocks hb

-- The runner of the library is one of those. Here the first run tells of both entries and completes, and
-- the second one is asked to stop when it has told of the malformed one.
theorem events_in_blocks_of_builtin :
    let o : Orchestrator := { runner := Catalog.builtin.runner }
    let s : State := { channel := { capacity := 64 } }
    let text := "\x7b\"checks\": [1, \x7b\"type\": \"template-locations\"\x7d]\x7d"
    let digest := some "f9ea79fdf460b6229db012373b89874b93b99c486fef96d8d0faeca2ae1f62c3"
    let malformed := Record.ofError "specification" <| .specification "checks[0]" "expected an object"
    let completion : Completion :=
      { run := ⟨1⟩, digest, overall := false,
        results := [⟨malformed, none⟩, ⟨.passed "template-locations" "All locations reachable", none⟩] }
    let start : Happening := .start text { name := "m" }
    let history : List Happening := start :: List.replicate 11 (.work ⟨1⟩ []) ++
      start :: List.replicate 5 (.work ⟨2⟩ []) ++ start :: List.replicate 4 (.work ⟨2⟩ [])
    let sent := (s.afterAll o history).channel.sent
    o.initial = .ok s ∧ (∀ spec d, (o.runner spec d).StopsOnlyWhenAsked false) ∧
      (∃ blocks, Narrative (s.chronicle o history) sent blocks) ∧
      sent =
        [.started ⟨1⟩ digest, .progress ⟨1⟩ 1 "specification", .progress ⟨1⟩ 2 "template-locations",
          .completed completion,
          .started ⟨2⟩ digest, .progress ⟨2⟩ 1 "specification", .cancelled ⟨2⟩] := by
  intro o s text digest malformed completion start history sent
  have h : o.initial = .ok s := State.initial_of_runner _
  have ho (spec d) : (o.runner spec d).StopsOnlyWhenAsked false :=
    Catalog.runEntries_prompt d spec.entries |>.stopsOnlyWhenAsked fun _ hr => hr ▸ nofun
  exact ⟨h, ho, events_in_blocks h ho, by decide +kernel⟩

end ModelAudit.Orchestrator

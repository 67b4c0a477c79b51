import ModelAudit.Proofs.Orchestrator.Turns

namespace ModelAudit.Orchestrator

open Incident

namespace Incident

def requested? : Incident → Option RunId
  | answered (.cancelRequested run) => some run
  | _ => none

-- The runs that somebody was told to have asked to stop, in order.
def requested (facts : List Incident) : List RunId :=
  facts.filterMap requested?

theorem requested_append (facts more : List Incident) :
    requested (facts ++ more) = requested facts ++ requested more :=
  List.filterMap_append

end Incident

namespace State

variable {o : Orchestrator} {s s' : State} {t : Task} {visits : Visits}

section Interrupted

theorem interrupted_start (s : State) (text : String) (document : Document) :
    (s.start text document).2.interrupted =
      s.interrupted ++ requested [.answered (s.start text document).1] := by
  cases hp : s.phase <;> simp only [start, hp]
  case running => rfl
  all_goals exact (List.append_nil _).symm

theorem interrupted_work? {records : List Record} {work : Activity (Except AuditError Unit)}
    (hs : t.stage = .checking work records) (h : s.work? t records work = some s') :
    s'.interrupted = s.interrupted ++ requested (t.incidents s) := by
  cases work <;> simp only [Task.incidents, hs]
  case press next =>
    cases h
    have hp := (s.toStage t.run (.checking next records)).interrupted_start "" { name := "toggle" }
    rwa [start_toStage] at hp
  case done result =>
    have hr : requested [.returned t.run result] = [] := rfl
    rw [hr, List.append_nil]
    cases result
    case ok => cases h; rfl
    case error e => cases e <;> cases h <;> rfl
  case gate =>
    have hr : requested [] = [] := rfl
    rw [hr, List.append_nil]
    simp only [work?] at h
    split at h
    · cases h; rfl
    · split at h <;> cases h; rfl
  all_goals cases h; exact (List.append_nil _).symm

theorem interrupted_step? (h : s.step? o visits t = some s') :
    s'.interrupted = s.interrupted ++ requested (t.incidents s) := by
  cases hs : t.stage <;> simp only [step?, hs] at h
  case checking => exact interrupted_work? hs h
  all_goals
    have hr : requested (t.incidents s) = [] := by simp only [Task.incidents, hs]; rfl
    rw [hr, List.append_nil]
  case cleared => cases hspec : t.spec <;> rw [hspec] at h <;> cases h <;> rfl
  case settled outcome =>
    cases h
    unfold finish
    split <;> cases outcome <;> rfl
  all_goals cases h; rfl

theorem interrupted_after (o : Orchestrator) (s : State) (h : Happening) :
    (s.after o h).interrupted = s.interrupted ++ requested (s.incidents h) := by
  cases h
  case start => exact s.interrupted_start ..
  case work run visits =>
    simp only [after, incidents, advance?]
    cases ht : s.task? run
    case none => exact (List.append_nil _).symm
    case some t =>
      simp only [Option.bind_some, Option.map_some, Option.getD_some]
      cases hs : s.step? o visits t
      case none => rw [incidents_eq_nil_of_step?_eq_none hs]; exact (List.append_nil _).symm
      case some => exact interrupted_step? hs
  case abandon =>
    refine Eq.trans ?_ (List.append_nil _).symm
    simp only [after, abandon]
    split <;> rfl
  all_goals exact (List.append_nil _).symm

theorem interrupted_afterAll (o : Orchestrator) (s : State) (history : List Happening) :
    (s.afterAll o history).interrupted = s.interrupted ++ requested (s.chronicle o history) := by
  induction history generalizing s
  case nil => exact (List.append_nil _).symm
  case cons h history hi =>
    rw [afterAll_cons, hi, interrupted_after, chronicle, requested_append, List.append_assoc]

end Interrupted

end State

section Moves

variable {o : Orchestrator} {signals : Signals} {t : Task} {facts : List Incident}
  {events : List RunEvent} {stage : Stage}

theorem Task.Moves.requested_eq (h : t.Moves o signals facts events stage) : requested facts = [] := by
  cases h <;> rfl

theorem Task.Moves.launched_eq (h : t.Moves o signals facts events stage) : launched facts = [] := by
  cases h <;> rfl

theorem Task.Moves.run_eq (h : t.Moves o signals facts events stage) :
    ∀ event ∈ events, event.run = t.run := by
  cases h
  case deliver => exact List.forall_mem_singleton.mpr rfl
  all_goals nofun

end Moves

namespace Lifecycle

variable {o : Orchestrator} {facts facts' : List Incident} {l l' : Lifecycle} {t : Task}

-- Nobody was asked to stop whose end receivers have heard of, and nobody is asked twice. The signals are
-- numbered as the runs are.
structure Interruptible (facts : List Incident) (l : Lifecycle) : Prop where
  once    : (requested facts).Nodup
  known   : ∀ run ∈ requested facts, run.number ≤ l.launches
  spared  : l.phase = .running → ⟨l.launches⟩ ∉ requested facts
  told    : ∀ event ∈ l.sent, event.run.number ≤ l.launches
  started : ∀ a, l.active = some a → ∃ digest, .started a.run digest ∈ l.sent
  ongoing : ∀ a, l.active = some a → ∀ event ∈ l.sent, event.run = a.run → event.closing? = none
  signals : l.signals.next = l.launches
  own     : ∀ a, l.active = some a → a.signal.number + 1 = a.run.number

namespace Interruptible

theorem initial (channel : Channel RunEvent) (h : channel.sent = []) :
    ({ channel := channel } : State).lifecycle.Interruptible [] where
  once    := .nil
  known   := nofun
  spared  := nofun
  told    := fun event he => absurd (show event ∈ channel.sent from he) <| by simp [h]
  started := nofun
  ongoing := nofun
  signals := rfl
  own     := nofun

theorem append (h : l.Interruptible facts) (hf : requested facts' = []) :
    l.Interruptible (facts ++ facts') := by
  have hf : requested (facts ++ facts') = requested facts := by
    rw [requested_append, hf, List.append_nil]
  exact ⟨hf ▸ h.once, hf ▸ h.known, hf ▸ h.spared, h.told, h.started, h.ongoing, h.signals, h.own⟩

-- Receivers may be told of the run that was launched last, also that it is over.
theorem tell (h : l.Interruptible facts) {events : List RunEvent} (hn : l'.launches = l.launches)
    (hp : l'.phase = .running → l.phase = .running) (ha : ∀ a, l'.active = some a → l.active = some a)
    (hx : l'.signals = l.signals) (hs : l'.sent = l.sent ++ events)
    (hr : ∀ event ∈ events, event.run = ⟨l.launches⟩)
    (hc : l'.active ≠ none → ∀ event ∈ events, event.closing? = none) : l'.Interruptible facts := by
  constructor
  case once => exact h.once
  case known => exact hn ▸ h.known
  case spared => exact fun hr => hn ▸ h.spared (hp hr)
  case told =>
    rw [hs, hn]
    refine List.forall_mem_append.mpr ⟨h.told, fun event he => ?_⟩
    exact Nat.le_of_eq <| congrArg RunId.number <| hr event he
  case started =>
    intro a ha'
    have ⟨digest, hd⟩ := h.started a <| ha a ha'
    exact ⟨digest, hs ▸ List.mem_append_left _ hd⟩
  case ongoing =>
    intro a ha'
    rw [hs]
    refine List.forall_mem_append.mpr ⟨h.ongoing a <| ha a ha', fun event he _ => ?_⟩
    exact hc (by simp [ha']) event he
  case signals => rw [hx, hn, h.signals]
  case own => exact fun a ha' => h.own a <| ha a ha'

theorem toStage (h : l.Interruptible facts) (run : RunId) (stage : Stage) :
    (l.toStage run stage).Interruptible facts :=
  ⟨h.once, h.known, h.spared, h.told, h.started, h.ongoing, h.signals, h.own⟩

theorem raise (h : l.Interruptible facts) : l.raiseActive.Interruptible facts := by
  cases ha : l.active
  case none => simpa [raiseActive, ha] using h
  case some =>
    rw [raiseActive_of_active ha]
    exact ⟨h.once, h.known, h.spared, h.told, h.started, h.ongoing, h.signals, h.own⟩

theorem launch (h : l.Interruptible facts) (text : String) (document : Document) :
    (l.launch (l.nextTask text document)).Interruptible facts := by
  constructor
  case once => exact h.once
  case known => exact fun run hm => Nat.le_succ_of_le <| h.known run hm
  case spared => exact fun _ hm => Nat.lt_irrefl _ <| h.known _ hm
  case told =>
    refine List.forall_mem_append.mpr ⟨fun event he => Nat.le_succ_of_le <| h.told event he, ?_⟩
    exact List.forall_mem_singleton.mpr <| Nat.le_refl _
  case started =>
    rintro _ ⟨⟩
    exact ⟨_, List.mem_append_right _ <| List.mem_singleton_self _⟩
  case ongoing =>
    rintro _ ⟨⟩
    refine List.forall_mem_append.mpr ⟨fun event he hr => ?_, List.forall_mem_singleton.mpr fun _ => rfl⟩
    have hl := h.told event he
    rw [hr] at hl
    exact absurd hl <| Nat.not_succ_le_self _
  case signals => exact congrArg (· + 1) h.signals
  case own =>
    rintro _ ⟨⟩
    exact congrArg (· + 1) h.signals

theorem request {a : Active} (h : l.Interruptible facts) (hc : l.Coherent facts)
    (ha : l.active = some a) (hp : l.phase = .running) :
    { l.raiseActive with phase := .cancelling : Lifecycle }.Interruptible
      (facts ++ [.answered (.cancelRequested a.run)]) := by
  have hr : a.run = ⟨l.launches⟩ := (hc.newest a ha).left
  have hf : requested (facts ++ [.answered (.cancelRequested a.run)]) = requested facts ++ [a.run] :=
    requested_append ..
  rw [raiseActive_of_active ha]
  constructor
  case once =>
    rw [hf, (List.perm_append_singleton _ _).nodup_iff]
    exact List.nodup_cons.mpr ⟨hr ▸ h.spared hp, h.once⟩
  case known =>
    rw [hf]
    refine List.forall_mem_append.mpr ⟨h.known, List.forall_mem_singleton.mpr ?_⟩
    exact Nat.le_of_eq <| congrArg RunId.number hr
  case spared => nofun
  case told => exact h.told
  case started => exact h.started
  case ongoing => exact h.ongoing
  case signals => exact h.signals
  case own => exact h.own

theorem answers {outcome : StartOutcome} (h : l.Interruptible facts) (hc : l.Coherent facts)
    (ha : l.Answers outcome l') : l'.Interruptible (facts ++ [.answered outcome]) := by
  cases ha
  case launch => exact h.launch .. |>.append rfl
  case ignore => exact h.append rfl
  case request hp =>
    have ⟨a, _, ha, _, _⟩ := hc.flight.airborne_of_ne_idle (by simp [hp])
    simpa [ha] using h.request hc ha hp

theorem step (h : l.Interruptible facts) (hc : l.Coherent facts) (hs : l.Step o facts' l') :
    l'.Interruptible (facts ++ facts') := by
  have run_of {t : Task} (ht : l.task? t.run = some t) : t.run = ⟨l.launches⟩ := by
    have ⟨_, a, ha, _, hw⟩ := hc.flight.airborne_of_task? ht
    exact hw.run.trans (hc.newest a ha).left
  cases hs with
  | rest => exact h.append rfl
  | start ha => exact h.answers hc ha
  | move ht hm =>
    refine .append (h.tell rfl id (fun _ => id) rfl rfl (fun event he => ?_) fun _ => ?_) hm.requested_eq
    · exact (hm.run_eq event he).trans <| run_of ht
    · exact (Task.Goes.move hm).closing?_eq_none
  | press ht _ ha => exact (h.toStage ..).answers (hc.toStage ht _ _ hc.peak) ha
  | complete ht _ _ hr =>
    refine .append (h.tell rfl nofun nofun rfl rfl ?_ fun hn => absurd rfl hn) rfl
    exact List.forall_mem_singleton.mpr <| hr.trans <| run_of ht
  | cancel ht =>
    refine .append (h.tell rfl nofun nofun rfl rfl ?_ fun hn => absurd rfl hn) rfl
    exact List.forall_mem_singleton.mpr <| run_of ht
  | lapse ht _ hg => exact absurd (hc.generation_eq ht) hg
  | abandon => exact h.raise.append rfl

end Interruptible

-- What a step means for the signals: the active run is asked to stop, a run is launched, the owner goes,
-- or nothing.
inductive Effect (l : Lifecycle) : List Incident → Lifecycle → Prop
  | request {a : Active} {l' : Lifecycle} (ha : l.active = some a) (hp : l.phase = .running) (hs : l'.sent = l.sent)
    (hx : l'.signals = l.signals.raise a.signal) : l.Effect [.answered (.cancelRequested a.run)] l'
  | launch {text document} (hp : l.phase = .idle) : l.Effect [.answered (.started ⟨l.launches + 1⟩)]
    (l.launch (l.nextTask text document))
  | abandon : l.Effect [.abandoned] l.raiseActive
  | calm {facts : List Incident} {l' : Lifecycle} (hr : requested facts = []) (hl : launched facts = [])
    (hx : l'.signals = l.signals) : l.Effect facts l'

theorem Answers.effect {outcome : StartOutcome} (h : l.Answers outcome l') (hc : l.Coherent facts) :
    l.Effect [.answered outcome] l' := by
  cases h
  case launch hp => exact .launch hp
  case ignore => exact .calm rfl rfl rfl
  case request hp =>
    have ⟨a, _, ha, _, _⟩ := hc.flight.airborne_of_ne_idle (by simp [hp])
    rw [raiseActive_of_active ha, ha]
    exact .request ha hp rfl rfl

theorem Step.effect (h : l.Step o facts' l') (hc : l.Coherent facts) : l.Effect facts' l' := by
  cases h with
  | rest => exact .calm rfl rfl rfl
  | start ha => exact ha.effect hc
  | move _ hm => exact .calm hm.requested_eq hm.launched_eq rfl
  | press ht _ ha =>
    cases ha.effect (hc.toStage ht _ _ hc.peak) with
    | request hr hp hs hx => exact .request hr hp hs hx
    | launch hp => exact absurd hp (hc.flight.airborne_of_task? ht).left
    | calm hr hl hx => exact .calm hr hl hx
  | complete => exact .calm rfl rfl rfl
  | cancel => exact .calm rfl rfl rfl
  | lapse => exact .calm rfl rfl rfl
  | abandon => exact .abandon

namespace Effect

theorem of_requested {run : RunId} (h : l.Effect facts' l') (hr : run ∈ requested facts') :
    ∃ a, l.active = some a ∧ a.run = run ∧ l.phase = .running ∧ l'.sent = l.sent := by
  cases h with
  | request ha hp hs =>
    obtain rfl := List.mem_singleton.mp hr
    exact ⟨_, ha, rfl, hp, hs⟩
  | launch => cases hr
  | abandon => cases hr
  | calm hn => simp [hn] at hr

theorem of_raised {x : Signal} (h : l.Effect facts' l') (hx : l'.signals.IsRaised x) :
    l.signals.IsRaised x ∨
      ∃ a, l.active = some a ∧ a.signal = x ∧ (a.run ∈ requested facts' ∨ .abandoned ∈ facts') := by
  cases h with
  | request ha _ _ hr =>
    rw [hr] at hx
    cases Signals.isRaised_raise.mp hx
    case inl he => exact .inr ⟨_, ha, he.symm, .inl <| List.mem_singleton_self _⟩
    case inr hx => exact .inl hx
  | launch => exact .inl hx
  | abandon =>
    cases ha : l.active
    case none => simpa [raiseActive, ha] using hx
    case some a =>
      rw [raiseActive_of_active ha] at hx
      cases Signals.isRaised_raise.mp hx
      case inl he => exact .inr ⟨_, rfl, he.symm, .inr <| List.mem_singleton_self _⟩
      case inr hx => exact .inl hx
  | calm _ _ hn => exact .inl <| hn ▸ hx

-- No signal that is yet to be issued is raised.
theorem of_started {run : RunId} (h : l.Effect facts' l') (hc : l.Coherent facts)
    (hs : .answered (.started run) ∈ facts') :
    ∃ a, l'.active = some a ∧ a.run = run ∧ ¬l'.signals.IsRaised a.signal := by
  cases h with
  | request => cases List.mem_singleton.mp hs
  | launch =>
    cases List.mem_singleton.mp hs
    exact ⟨_, rfl, rfl, fun hr => Nat.lt_irrefl _ <| hc.fresh _ hr⟩
  | abandon => cases List.mem_singleton.mp hs
  | calm _ hl => exact nomatch List.filterMap_eq_nil_iff.mp hl _ hs

end Effect

-- Every signal that is raised belongs to a run that was asked to stop, unless the owner went.
def Caused (facts : List Incident) (l : Lifecycle) : Prop :=
  ∀ x, l.signals.IsRaised x → ⟨x.number + 1⟩ ∈ requested facts ∨ .abandoned ∈ facts

theorem Caused.step (h : l.Caused facts) (hi : l.Interruptible facts) (hc : l.Coherent facts)
    (hs : l.Step o facts' l') : l'.Caused (facts ++ facts') := by
  intro x hx
  rw [requested_append]
  cases (hs.effect hc).of_raised hx
  case inl hx => exact (h x hx).imp (List.mem_append_left _) (List.mem_append_left _)
  case inr hx =>
    obtain ⟨a, ha, rfl, hr⟩ := hx
    rw [hi.own a ha]
    exact hr.imp (List.mem_append_right _) (List.mem_append_right _)

end Lifecycle

namespace State

variable {o : Orchestrator} {s : State} {facts : List Incident}

-- What one happening has to do with interrupts and signals.
structure Aimed (o : Orchestrator) (s : State) (h : Happening) : Prop where
  -- The runner is told of the requests that somebody has just been told of, while their run is active and
  -- receivers have heard neither of its end nor of a later run.
  told    : (s.after o h).interrupted = s.interrupted ++ requested (s.incidents h)
  active  : ∀ run ∈ requested (s.incidents h), s.phase = .running ∧ s.active.map (·.run) = some run
  pending : ∀ run ∈ requested (s.incidents h), (∃ digest, .started run digest ∈ s.channel.sent) ∧
    ∀ event ∈ (s.after o h).channel.sent, event.run.number ≤ run.number ∧
      (event.run = run → event.closing? = none)
  -- A signal is raised by a request to the run it belongs to, or by the owner who goes.
  raised  : ∀ x, (s.after o h).signals.IsRaised x → s.signals.IsRaised x ∨
    ∃ a, s.active = some a ∧ a.signal = x ∧ (a.run ∈ requested (s.incidents h) ∨ h = .abandon)
  unset   : ∀ run, .answered (.started run) ∈ s.incidents h → ∃ a, (s.after o h).active = some a ∧
    a.run = run ∧ ¬(s.after o h).signals.IsRaised a.signal

theorem aimed (hc : s.lifecycle.Coherent facts) (hi : s.lifecycle.Interruptible facts) (h : Happening) :
    s.Aimed o h := by
  have he := (s.after_step o h).effect hc
  constructor
  case told => exact s.interrupted_after ..
  case active =>
    intro run hr
    have ⟨a, ha, he, hp, _⟩ := he.of_requested hr
    exact ⟨hp, by simp [show s.active = some a from ha, he]⟩
  case pending =>
    intro run hr
    obtain ⟨a, ha, rfl, _, hs⟩ := he.of_requested hr
    refine ⟨hi.started a ha, fun event hm => ?_⟩
    have hm : event ∈ s.lifecycle.sent := hs ▸ hm
    exact ⟨(hc.newest a ha).left ▸ hi.told event hm, hi.ongoing a ha event hm⟩
  case raised =>
    intro x hx
    refine (he.of_raised hx).imp_right ?_
    rintro ⟨a, ha, rfl, hr⟩
    exact ⟨a, ha, rfl, hr.imp_right abandoned_mem_incidents⟩
  case unset => exact fun run hs => he.of_started hc hs

theorem interruptible_of_initial {s₀ : State} (h : o.initial = .ok s₀) (history : List Happening) :
    (s₀.afterAll o history).lifecycle.Interruptible (s₀.chronicle o history) ∧
      (s₀.afterAll o history).lifecycle.Caused (s₀.chronicle o history) := by
  have ⟨capacity, hs⟩ := eq_of_initial h
  subst hs
  have hc := Lifecycle.Coherent.initial { capacity := capacity }
  refine hc.induction (motive := fun facts l => l.Interruptible facts ∧ l.Caused facts) ⟨?_, nofun⟩
    (fun hc hi hs => ⟨hi.left.step hc hs, hi.right.step hi.left hc hs⟩) history
  exact .initial _ rfl

-- All that a history has to do with interrupts and signals.
structure Interrupts (o : Orchestrator) (s₀ : State) (history : List Happening) : Prop where
  calls   : (s₀.afterAll o history).interrupted = requested (s₀.chronicle o history)
  once    : (s₀.afterAll o history).interrupted.Nodup
  moments : ∀ before h more, history = before ++ h :: more → (s₀.afterAll o before).Aimed o h
  -- The signals are numbered as their runs are, from zero on, and the work of a run looks at its own.
  own     : ∀ a, (s₀.afterAll o history).active = some a → a.signal.number + 1 = a.run.number
  heeded  : ∀ t ∈ (s₀.afterAll o history).tasks, ∃ a, (s₀.afterAll o history).active = some a ∧
    t.run = a.run ∧ t.signal = a.signal
  cause   : ∀ x, (s₀.afterAll o history).signals.IsRaised x →
    ⟨x.number + 1⟩ ∈ (s₀.afterAll o history).interrupted ∨ .abandon ∈ history

end State

-- Whoever presses the button at whatever moment, and whatever becomes of the runs.
theorem interrupts_aimed {o : Orchestrator} {s₀ : State} {history : List Happening}
    (h : o.initial = .ok s₀) : s₀.Interrupts o history := by
  have hc := State.coherent_of_initial h history
  have ⟨hi, hx⟩ := State.interruptible_of_initial h history
  have hr : (s₀.afterAll o history).interrupted = requested (s₀.chronicle o history) := by
    have ⟨_, hs⟩ := State.eq_of_initial h
    rw [State.interrupted_afterAll, hs]
    rfl
  constructor
  case calls => exact hr
  case once => exact hr ▸ hi.once
  case moments =>
    intro before h' _ _
    have hc := State.coherent_of_initial h before
    exact State.aimed hc (State.interruptible_of_initial h before).left h'
  case own => exact hi.own
  case heeded =>
    intro t ht
    have ⟨_, a, ha, _, hw⟩ := hc.flight.airborne_of_task? <| hc.flight.task?_of_mem ht
    exact ⟨a, ha, hw.run, hw.signal⟩
  case cause =>
    intro x hx'
    exact hr ▸ (hx x hx').imp_right State.abandon_mem_of_abandoned_mem

-- Two runs, one after the other, both of which are asked to stop.
theorem interrupts_aimed_of_restart :
    let o : Orchestrator := { runner := Catalog.builtin.runner }
    let s₀ : State := { channel := { capacity := 64 } }
    let d : Document := { name := "m" }
    let work : Happening := .work ⟨1⟩ []
    let history : List Happening :=
      [.start "" d, .start "" d, work, work, work, work, work, .start "" d, .start "" d]
    o.initial = .ok s₀ ∧ (s₀.afterAll o history).interrupted = [⟨1⟩, ⟨2⟩] ∧ s₀.Interrupts o history :=
  ⟨rfl, rfl, interrupts_aimed rfl⟩

end ModelAudit.Orchestrator

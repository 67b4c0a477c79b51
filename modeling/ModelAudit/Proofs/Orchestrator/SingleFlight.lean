import ModelAudit.Proofs.Orchestrator.Lifecycle

namespace ModelAudit.Orchestrator

structure Task.IsWorkOf (t : Task) (a : Active) : Prop where
  run        : t.run = a.run
  generation : t.generation = a.generation
  signal     : t.signal = a.signal

namespace Lifecycle

-- Either nothing is in flight, or the work of the active run and no other.
inductive Flight (l : Lifecycle) : Prop
  | grounded (phase : l.phase = .idle) (active : l.active = none) (tasks : l.tasks = [])
  | airborne {a t} (phase : l.phase ≠ .idle) (active : l.active = some a) (tasks : l.tasks = [t])
    (work : t.IsWorkOf a)

-- The invariant depends on what happened before in one point only: a signal that is raised was raised
-- by a request that is still pending, or by the owner who went.
structure Coherent (facts : List Incident) (l : Lifecycle) : Prop where
  flight : l.Flight
  newest : ∀ a, l.active = some a → a.run = ⟨l.launches⟩ ∧ a.generation = l.generation
  named  : ∀ a, l.active = some a → a.run ≠ .none
  issued : ∀ a, l.active = some a → a.signal.number < l.signals.next
  fresh  : ∀ x, l.signals.IsRaised x → x.number < l.signals.next
  raised : ∀ a, l.active = some a → l.phase = .cancelling → l.signals.IsRaised a.signal
  cause  : ∀ a, l.active = some a → l.signals.IsRaised a.signal →
    (l.phase = .cancelling ∧ .answered (.cancelRequested a.run) ∈ facts) ∨ .abandoned ∈ facts
  peak   : l.peak ≤ 1

variable {o : Orchestrator} {facts more : List Incident} {l l' : Lifecycle} {run : RunId} {t : Task}

theorem raiseActive_of_active {a : Active} (h : l.active = some a) :
    l.raiseActive = { l with signals := l.signals.raise a.signal } := by
  simp [raiseActive, h]

theorem tasks_toStage_of_singleton (h : l.tasks = [t]) (stage : Stage) :
    (l.toStage t.run stage).tasks = [{ t with stage := stage }] := by
  simp [toStage, h]

theorem inside_toStage_le (h : l.tasks = [t]) (stage : Stage) :
    (l.toStage t.run stage).inside ≤ 1 := by
  simp only [inside, tasks_toStage_of_singleton h]
  exact List.countP_le_length

theorem tasks_endTask_of_singleton (h : l.tasks = [t]) : (l.endTask t.run).tasks = [] := by
  simp [endTask, h]

namespace Flight

theorem phase_idle_iff (h : l.Flight) : l.phase = .idle ↔ l.active = none := by
  cases h
  case grounded hp ha _ => simp [hp, ha]
  case airborne hp ha _ _ => simp [hp, ha]

theorem length_tasks_le (h : l.Flight) : l.tasks.length ≤ 1 := by
  cases h
  case grounded ht => simp [ht]
  case airborne ht _ => simp [ht]

theorem grounded_of_idle (h : l.Flight) (hp : l.phase = .idle) : l.active = none ∧ l.tasks = [] := by
  cases h
  case grounded ha ht => exact ⟨ha, ht⟩
  case airborne hn _ _ _ => exact absurd hp hn

theorem airborne_of_ne_idle (h : l.Flight) (hp : l.phase ≠ .idle) :
    ∃ a t, l.active = some a ∧ l.tasks = [t] ∧ t.IsWorkOf a := by
  cases h
  case grounded hi _ _ => exact absurd hi hp
  case airborne ha ht hw => exact ⟨_, _, ha, ht, hw⟩

theorem airborne_of_task? (h : l.Flight) (ht : l.task? run = some t) :
    l.phase ≠ .idle ∧ ∃ a, l.active = some a ∧ l.tasks = [t] ∧ t.IsWorkOf a := by
  have hm := List.mem_of_find?_eq_some ht
  cases h
  case grounded hn => simp [hn] at hm
  case airborne a t' hp ha hs hw =>
    obtain rfl : t = t' := by simpa [hs] using hm
    exact ⟨hp, a, ha, hs, hw⟩

theorem task?_of_mem (h : l.Flight) (ht : t ∈ l.tasks) : l.task? t.run = some t := by
  cases h
  case grounded hn => simp [hn] at ht
  case airborne t' _ _ hs _ =>
    obtain rfl : t = t' := by simpa [hs] using ht
    simp [task?, hs]

end Flight

namespace Coherent

theorem append (h : l.Coherent facts) : l.Coherent (facts ++ more) where
  flight := h.flight
  newest := h.newest
  named  := h.named
  issued := h.issued
  fresh  := h.fresh
  raised := h.raised
  cause  := fun a ha hr => (h.cause a ha hr).imp
    (fun hc => ⟨hc.left, List.mem_append_left _ hc.right⟩) (List.mem_append_left _)
  peak   := h.peak

-- At its end a run never finds that another one has taken its place.
theorem generation_eq (h : l.Coherent facts) (ht : l.task? run = some t) :
    l.generation = t.generation :=
  have ⟨_, a, ha, _, hw⟩ := h.flight.airborne_of_task? ht
  (h.newest a ha).right.symm.trans hw.generation.symm

-- A stage can change, and so can what receivers are told.
theorem toStage (h : l.Coherent facts) (ht : l.task? t.run = some t) (stage : Stage)
    (sent : List RunEvent) {peak : Nat} (hp : peak ≤ 1) :
    { l.toStage t.run stage with sent := sent, peak := peak : Lifecycle }.Coherent facts where
  flight :=
    have ⟨hp, _, ha, hs, hw⟩ := h.flight.airborne_of_task? ht
    .airborne hp ha (tasks_toStage_of_singleton hs stage) ⟨hw.run, hw.generation, hw.signal⟩
  newest := h.newest
  named  := h.named
  issued := h.issued
  fresh  := h.fresh
  raised := h.raised
  cause  := h.cause
  peak   := hp

-- With the end of its work a run is no longer active.
theorem endTask (h : l.Coherent facts) (ht : l.task? t.run = some t) (sent : List RunEvent)
    (last : Option Completion) :
    { l.endTask t.run with
      phase := .idle, active := none, last := last, sent := sent : Lifecycle }.Coherent facts where
  flight :=
    have ⟨_, _, _, hs, _⟩ := h.flight.airborne_of_task? ht
    .grounded rfl rfl (tasks_endTask_of_singleton hs)
  newest := nofun
  named  := nofun
  issued := nofun
  fresh  := h.fresh
  raised := nofun
  cause  := nofun
  peak   := h.peak

-- A signal that was never raised is neither the one of the active run nor one that is yet to be issued.
theorem launch (h : l.Coherent facts) (hp : l.phase = .idle) (text : String) (document : Document) :
    (l.launch (l.nextTask text document)).Coherent facts where
  flight :=
    have ⟨_, ht⟩ := h.flight.grounded_of_idle hp
    .airborne nofun rfl (by simp [Lifecycle.launch, ht]) ⟨rfl, rfl, rfl⟩
  newest := by rintro _ ⟨⟩; exact ⟨rfl, rfl⟩
  named  := by rintro _ ⟨⟩ ⟨⟩
  issued := by rintro _ ⟨⟩; exact Nat.lt_succ_self _
  fresh  := fun x hx => Nat.lt_succ_of_lt <| h.fresh x hx
  raised := nofun
  cause  := by
    rintro _ ⟨⟩ hr
    exact absurd (h.fresh _ hr) (Nat.lt_irrefl _)
  peak   := h.peak

-- The signal of the active run may be raised by a request or by the owner who goes.
theorem raise {a : Active} (h : l.Coherent facts) (ha : l.active = some a) {phase : Phase}
    (hp : phase ≠ .idle)
    (hc : (phase = .cancelling ∧ .answered (.cancelRequested a.run) ∈ facts) ∨ .abandoned ∈ facts) :
    { l with phase := phase, signals := l.signals.raise a.signal : Lifecycle }.Coherent facts where
  flight := by
    cases h.flight
    case grounded hn _ => simp [hn] at ha
    case airborne ha' ht hw => exact .airborne hp ha' ht hw
  newest := h.newest
  named  := h.named
  issued := h.issued
  fresh  := fun x hx =>
    Signals.isRaised_raise.mp hx |>.elim (fun hx => hx ▸ h.issued a ha) (h.fresh x)
  raised := fun a' ha' _ =>
    Signals.isRaised_raise.mpr <| .inl <| congrArg Active.signal <| Option.some.inj <| ha'.symm.trans ha
  cause  := fun a' ha' _ => by
    obtain rfl : a = a' := Option.some.inj <| ha.symm.trans ha'
    exact hc
  peak   := h.peak

theorem answers {outcome : StartOutcome} (h : l.Coherent facts) (ha : l.Answers outcome l') :
    l'.Coherent (facts ++ [.answered outcome]) := by
  cases ha
  case launch hp => exact h.launch hp .. |>.append
  case ignore => exact h.append
  case request hp =>
    have ⟨a, _, ha, _, _⟩ := h.flight.airborne_of_ne_idle (by simp [hp])
    rw [raiseActive_of_active ha]
    exact h.append.raise ha nofun <| .inl ⟨rfl, by simp [ha]⟩

theorem step {facts' : List Incident} (h : l.Coherent facts) (hs : l.Step o facts' l') :
    l'.Coherent (facts ++ facts') := by
  cases hs with
  | rest => exact h.append
  | start ha => exact h.answers ha
  | move ht _ hp =>
    have ⟨_, _, _, hs, _⟩ := h.flight.airborne_of_task? ht
    exact h.toStage ht _ _ (Nat.le_trans hp <| Nat.max_le.mpr ⟨h.peak, inside_toStage_le hs _⟩) |>.append
  | press ht _ ha => exact h.toStage ht _ _ h.peak |>.answers ha
  | complete ht => exact h.endTask ht .. |>.append
  | cancel ht => exact h.endTask ht .. |>.append
  | lapse ht _ hg => exact absurd (h.generation_eq ht) hg
  | abandon =>
    cases ha : l.active
    case none => simpa [raiseActive, ha] using h.append
    case some a =>
      have hp : l.phase ≠ .idle := by simp [h.flight.phase_idle_iff, ha]
      rw [raiseActive_of_active ha]
      exact h.append.raise ha hp <| .inr <| by simp

theorem initial (channel : Channel RunEvent) :
    ({ channel := channel } : State).lifecycle.Coherent [] where
  flight := .grounded rfl rfl rfl
  newest := nofun
  named  := nofun
  issued := nofun
  fresh  := nofun
  raised := nofun
  cause  := nofun
  peak   := Nat.zero_le _

-- What holds in the beginning and is preserved by steps from coherent states holds at the end of every
-- history.
theorem induction {motive : List Incident → Lifecycle → Prop} {s : State}
    (h : s.lifecycle.Coherent facts) (hm : motive facts s.lifecycle)
    (step : ∀ {facts facts' l l'}, l.Coherent facts → motive facts l → l.Step o facts' l' →
      motive (facts ++ facts') l') (history : List Happening) :
    motive (facts ++ s.chronicle o history) (s.afterAll o history).lifecycle := by
  induction history generalizing s facts
  case nil => simpa [State.chronicle, State.afterAll] using hm
  case cons h' history hi =>
    have hs := s.after_step o h'
    have hm' := hi (h.step hs) <| step h hm hs
    simpa [State.chronicle, State.afterAll_cons] using hm'

theorem afterAll {s : State} (h : s.lifecycle.Coherent facts) (history : List Happening) :
    (s.afterAll o history).lifecycle.Coherent (facts ++ s.chronicle o history) :=
  h.induction h (fun h _ hs => h.step hs) history

end Coherent

end Lifecycle

namespace State

variable {o : Orchestrator} {s s₀ : State}

theorem coherent_of_initial (h : o.initial = .ok s₀) (history : List Happening) :
    (s₀.afterAll o history).lifecycle.Coherent (s₀.chronicle o history) := by
  have ⟨capacity, hs⟩ := eq_of_initial h
  subst hs
  have hi := Lifecycle.Coherent.initial { capacity := capacity } |>.afterAll (o := o) history
  simpa using hi

theorem abandoned_mem_incidents {h : Happening} : .abandoned ∈ s.incidents h → h = .abandon := by
  intro hm
  cases h
  case abandon => rfl
  case work run _ =>
    cases ht : s.task? run <;> simp [incidents, ht, Task.incidents] at hm
    case some => split at hm <;> simp at hm
  all_goals simp [incidents] at hm

theorem abandon_mem_of_abandoned_mem {history : List Happening}
    (h : .abandoned ∈ s.chronicle o history) : .abandon ∈ history := by
  induction history generalizing s
  case nil => cases h
  case cons h' history hi =>
    cases List.mem_append.mp h
    case inl h => simp [abandoned_mem_incidents h]
    case inr h => exact List.mem_cons_of_mem _ <| hi h

-- What the fields of a state say about the run in flight.
structure Sound (s : State) : Prop where
  idle_iff   : s.phase = .idle ↔ s.active = none
  generation : ∀ a, s.active = some a → a.generation = s.generation
  raised_iff : ∀ a, s.active = some a → (s.signals.IsRaised a.signal ↔ s.phase = .cancelling)
  -- No two runs lie between their launches and their ends, so no two are in the runner either.
  single     : s.tasks.length ≤ 1
  inFlight   : s.tasks.map (·.run) = s.active.toList.map (·.run)
  overlap    : s.inside ≤ 1 ∧ s.peak ≤ 1
  -- No run finds at its end that another one has taken its place.
  current    : ∀ t ∈ s.tasks, t.generation = s.generation

-- How the button answers in a state, and which of the answers come with new work.
structure Toggles (s : State) (text : String) (document : Document) : Prop where
  started   : (∃ run, (s.start text document).1 = .started run) ↔ s.phase = .idle
  requested : ∀ run, (s.start text document).1 = .cancelRequested run ↔
    s.phase = .running ∧ s.active.map (·.run) = some run
  ignored   : (s.start text document).1 = .alreadyCancelling ↔ s.phase = .cancelling
  launched  : ∀ run, (s.start text document).1 = .started run → ∃ t, t.run = run ∧
    t.spec = CheckSet.parse text ∧ t.document = document ∧ (s.start text document).2.tasks = [t]
  unchanged : s.phase ≠ .idle → (s.start text document).2.tasks = s.tasks
  named     : (s.start text document).1 ≠ .cancelRequested .none

end State

namespace Lifecycle.Coherent

variable {facts : List Incident} {s : State}

theorem sound (h : s.lifecycle.Coherent facts) (hf : .abandoned ∉ facts) : s.Sound where
  idle_iff   := h.flight.phase_idle_iff
  generation := fun a ha => (h.newest a ha).right
  raised_iff := fun a ha => ⟨fun hr => (h.cause a ha hr).resolve_right hf |>.left, h.raised a ha⟩
  single     := h.flight.length_tasks_le
  inFlight   := by
    cases h.flight
    case grounded ha ht =>
      simp [show s.tasks = [] from ht, show s.active = none from ha]
    case airborne a t _ ha ht hw =>
      simp [show s.tasks = [t] from ht, show s.active = some a from ha, hw.run]
  overlap    := ⟨Nat.le_trans List.countP_le_length h.flight.length_tasks_le, h.peak⟩
  current    := by
    intro t ht
    cases h.flight
    case grounded hn => cases (show s.tasks = [] from hn) ▸ ht
    case airborne a t' _ ha hs hw =>
      obtain rfl : t = t' := List.mem_singleton.mp <| (show s.tasks = [t'] from hs) ▸ ht
      exact hw.generation.trans (h.newest a ha).right

theorem toggles (h : s.lifecycle.Coherent facts) (text : String) (document : Document) :
    s.Toggles text document := by
  cases hp : s.phase
  case idle =>
    have ht : s.tasks = [] := h.flight.grounded_of_idle hp |>.right
    have hs : s.start text document = s.launch text document := by rw [State.start, hp]
    constructor <;> rw [hs]
    case launched =>
      rintro _ ⟨⟩
      have hl := congrArg Lifecycle.tasks <| s.lifecycle_launch text document
      refine ⟨s.lifecycle.nextTask text document, rfl, rfl, rfl, hl.trans ?_⟩
      exact congrArg (· ++ [s.lifecycle.nextTask text document]) ht
    all_goals simp [State.launch, hp]
  case running =>
    obtain ⟨a, _, ha, _, _⟩ := h.flight.airborne_of_ne_idle (by simp [State.lifecycle, hp])
    have hs : s.start text document = s.requestCancel := by rw [State.start, hp]
    have hr : s.requestCancel.1 = .cancelRequested a.run := by
      simp [State.requestCancel, show s.active = some a from ha]
    constructor <;> rw [hs]
    case unchanged => exact fun _ => rfl
    case requested => simp [hr, hp, show s.active = some a from ha]
    all_goals simp [hr, hp, h.named a ha]
  case cancelling => constructor <;> simp [State.start, hp]

end Lifecycle.Coherent

-- Whoever presses the button at whatever moment, as long as the owner stays: the state is sound, and
-- the answer is the one of the phase.
theorem single_flight {o : Orchestrator} {s : State} {history : List Happening}
    (h : o.initial = .ok s) (hk : .abandon ∉ history) :
    (s.afterAll o history).Sound ∧
      ∀ text document, (s.afterAll o history).Toggles text document := by
  have hc := State.coherent_of_initial h history
  exact ⟨hc.sound (mt State.abandon_mem_of_abandoned_mem hk), hc.toggles⟩

-- A run that was asked to stop before its runner was entered.
theorem single_flight_of_cancelling :
    let o : Orchestrator := { runner := Catalog.builtin.runner }
    let s : State := { channel := { capacity := 64 } }
    let d : Document := { name := "m" }
    let history : List Happening := [.start "" d, .work ⟨1⟩ [], .start "" d]
    o.initial = .ok s ∧ .abandon ∉ history ∧ (s.afterAll o history).phase = .cancelling ∧
      (s.afterAll o history).Sound ∧
        ∀ text document, (s.afterAll o history).Toggles text document :=
  ⟨rfl, by simp, rfl, single_flight rfl (by simp)⟩

end ModelAudit.Orchestrator

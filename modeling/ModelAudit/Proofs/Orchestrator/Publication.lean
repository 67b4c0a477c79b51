import ModelAudit.Proofs.Orchestrator.Desk
import ModelAudit.Proofs.Orchestrator.EventBlocks
import ModelAudit.Proofs.Orchestrator.Silence

namespace ModelAudit

open Registry (Use)

theorem Completion.overall_iff_failedCount {c : Completion} (h : c.overall = Record.overall c.records) :
    c.overall = true ↔ c.failedCount = 0 := by
  simp [h, Record.overall_iff, failedCount, List.countP_eq_zero]

namespace Orchestrator

namespace Lifecycle

open Incident

variable {o : Orchestrator} {facts facts' : List Incident} {l l' : Lifecycle} {outcome : StartOutcome}

-- What a run completes with, when its runner has come to a good end, is what was delivered for it.
structure Collected (facts : List Incident) (l : Lifecycle) : Prop where
  workers : ∀ f ∈ facts, ∀ run, f.worker? = some run → run.number ≤ l.launches
  backed  : ∀ t ∈ l.tasks, t.stage.Backed facts t.run True
  told    : ∀ c, l.Tells c → .returned c.run (.ok ()) ∈ facts → c.records = recordsOf c.run facts

theorem Answers.launches_le (h : l.Answers outcome l') : l.launches ≤ l'.launches := by
  cases h
  case launch => exact Nat.le_succ _
  case request => exact Nat.le_of_eq l.launches_raiseActive.symm
  case ignore => exact Nat.le_refl _

theorem Step.launches_le (h : l.Step o facts l') : l.launches ≤ l'.launches := by
  cases h with
  | start ha => exact ha.launches_le
  | press _ _ ha => exact ha.launches_le
  | abandon => exact Nat.le_of_eq l.launches_raiseActive.symm
  | _ => exact Nat.le_refl _

-- Only runs in flight are at work.
theorem Step.exists_task_of_worker (h : l.Step o facts l') {f : Incident} (hf : f ∈ facts) {run : RunId}
    (hw : f.worker? = some run) : ∃ t ∈ l.tasks, t.run = run := by
  cases h with
  | move ht hm =>
    have ⟨hr, _⟩ := hm.worker? f hf
    exact ⟨_, List.mem_of_find?_eq_some ht, Option.some.inj <| hr.symm.trans hw⟩
  | start | press | abandon => cases List.mem_singleton.mp hf; cases hw
  | _ => cases hf

theorem Over.untouched {run : RunId} (h : l.Over run) (hs : l.Step o facts l') : Untouched run facts :=
  fun _ hf hw =>
    have ⟨t, ht, hr⟩ := hs.exists_task_of_worker hf hw
    h.gone t ht hr

namespace Collected

theorem initial (channel : Channel RunEvent) (h : channel.sent = []) :
    ({ channel := channel } : State).lifecycle.Collected [] := by
  constructor <;> simp [Tells, State.lifecycle, h]

-- An answer concerns the stages only in that a run may be launched.
theorem backed_answers (h : l.Collected facts) (ha : l.Answers outcome l') :
    ∀ t ∈ l'.tasks, t.stage.Backed (facts ++ [.answered outcome]) t.run True := by
  have hu (run) : Untouched run [.answered outcome] := by simp [Untouched, worker?]
  have hb : ∀ t ∈ l.tasks, t.stage.Backed (facts ++ [.answered outcome]) t.run True :=
    fun t ht => (h.backed t ht).append (hu t.run) id
  cases ha
  case launch text document _ =>
    intro t ht
    cases List.mem_append.mp ht
    case inl ht => exact hb t ht
    case inr ht =>
      cases List.mem_singleton.mp ht
      refine .launched fun f hf hw => ?_
      cases List.mem_append.mp hf
      case inl hf => exact absurd (h.workers f hf _ hw) <| Nat.not_succ_le_self _
      case inr hf => exact hu _ f hf hw
  case request => exact l.tasks_raiseActive ▸ hb
  case ignore => exact hb

theorem toStage {t : Task} (h : l.Collected facts) (ht : l.tasks = [t]) {stage : Stage}
    (hs : stage.Backed facts t.run True) : (l.toStage t.run stage).Collected facts where
  workers := h.workers
  backed  := by
    intro t' ht'
    obtain rfl : t' = _ := List.mem_singleton.mp <| tasks_toStage_of_singleton ht stage ▸ ht'
    exact hs
  told    := h.told

theorem step (h : l.Collected facts) (hc : l.Coherent facts) (hd : l.Decided)
    (hs : l.Step o facts' l') : l'.Collected (facts ++ facts') where
  workers := by
    intro f hf run hw
    refine Nat.le_trans ?_ hs.launches_le
    cases List.mem_append.mp hf
    case inl hf => exact h.workers f hf run hw
    case inr hf =>
      have ⟨t, ht, hr⟩ := hs.exists_task_of_worker hf hw
      have ⟨_, a, ha, _, hi⟩ := hc.flight.airborne_of_task? <| hc.flight.task?_of_mem ht
      simp [← hr, hi.run, (hc.newest a ha).left]
  backed := by
    cases hs with
    | rest => exact (List.append_nil facts).symm ▸ h.backed
    | start ha => exact h.backed_answers ha
    | move ht hm =>
      have ⟨_, _, _, hts, _⟩ := hc.flight.airborne_of_task? ht
      intro t' ht'
      obtain rfl : t' = _ := List.mem_singleton.mp <| tasks_toStage_of_singleton hts _ ▸ ht'
      exact hm.backed (h.backed _ <| List.mem_of_find?_eq_some ht) (fun _ => trivial) (.inr trivial)
    | press ht hs ha =>
      have ⟨_, _, _, hts, _⟩ := hc.flight.airborne_of_task? ht
      have ⟨hl, hn, _⟩ := (h.backed _ <| List.mem_of_find?_eq_some ht).at_work hs
      exact (h.toStage hts <| .checking hl hn (.of_asked _) fun _ => trivial).backed_answers ha
    | complete | cancel | lapse =>
      rw [List.append_nil]
      exact fun t ht => h.backed t <| List.mem_filter.mp ht |>.left
    | abandon =>
      rw [tasks_raiseActive]
      exact fun t ht => (h.backed t ht).append (by simp [Untouched, worker?]) id
  told := by
    intro c ht hm
    rcases hs.tells ht with ht | ⟨t, he, hr⟩
    · have hu := hd.completed c ht |>.untouched hs
      rw [hu.recordsOf_append_eq]
      exact h.told c ht <| hu.returned_of_append hm
    · have hb := h.backed t <| List.mem_of_find?_eq_some he.task
      rw [he.facts, List.append_nil] at hm ⊢
      exact hr ▸ (hb.outcome_backed <| .inr he.stage).finished c.records rfl (hr ▸ hm)

end Collected

end Lifecycle

namespace State

variable {o : Orchestrator} {s s₀ : State} {c : Completion}

theorem collected_of_initial (h : o.initial = .ok s₀) (history : List Happening) :
    (s₀.afterAll o history).lifecycle.Collected (s₀.chronicle o history) := by
  obtain ⟨capacity, rfl⟩ := eq_of_initial h
  have hd := Lifecycle.decided h []
  exact (Lifecycle.Coherent.initial { capacity := capacity }).induction
    (motive := fun facts l => l.Decided ∧ l.Collected facts) ⟨hd, .initial _ rfl⟩
    (fun hc hm hs => ⟨hm.left.step hc hs, hm.right.step hc hm.left hs⟩) history |>.right

-- A completion that is told was told before, or some step publishes it.
theorem exists_publish {history : List Happening} (h : c ∈ (s.afterAll o history).desk.told) :
    c ∈ s.desk.told ∨ ∃ before step since, history = before ++ step :: since ∧
      (s.afterAll o before).Publishes step c ∧
        (s.afterAll o before).desk.Step ((s.afterAll o before).uses o step) (some c)
          ((s.afterAll o before).after o step).desk := by
  induction history generalizing s
  case nil => exact .inl h
  case cons step history hi =>
    rw [afterAll_cons] at h
    rcases hi h with h | ⟨before, step', since, he, hp⟩
    · have ⟨told, hd, hp⟩ := after_desk o s step
      rw [hd.told_eq] at h
      cases List.mem_append.mp h
      case inl h => exact .inl h
      case inr h =>
        obtain rfl := Option.mem_toList.mp h
        exact .inr ⟨[], step, history, rfl, hp c rfl, hd⟩
    · refine .inr ⟨step :: before, step', since, congrArg (step :: ·) he, ?_⟩
      rwa [afterAll_cons]

-- The tokens of a completion are in the order in which they were issued.
theorem ascending_of_told (h : o.initial = .ok s) {history : List Happening}
    (hc : c ∈ (s.afterAll o history).desk.told) : c.tokens.Pairwise fun t u => t.number < u.number := by
  obtain ⟨capacity, rfl⟩ := eq_of_initial h
  obtain ⟨before, step, since, he, hp, hd⟩ := exists_publish hc |>.resolve_left List.not_mem_nil
  obtain ⟨arriving, issuing, hu, hi, ho⟩ := hd.issues
  rw [Completion.tokens, hi.tokens_eq]
  exact (Registry.receipts_pairwise _ issuing).filter _ |>.map _ fun _ _ => id

-- What is known of a completion that was told in the course of a history: the records are those that
-- the run had come to when it published, and every token leads to the trace of its record.
structure Publication (o : Orchestrator) (s₀ : State) (history : List Happening) (c : Completion) :
    Prop where
  records   : ∃ before visits since t, history = before ++ .work c.run visits :: since ∧
    (s₀.afterAll o before).task? c.run = some t ∧ t.stage = .settled (.finished c.records)
  delivered : .returned c.run (.ok ()) ∈ s₀.chronicle o history →
    c.records = Incident.recordsOf c.run (s₀.chronicle o history)
  traces    : ∀ p ∈ c.results, p.token.isSome = p.record.hasTrace
  ascending : c.tokens.Pairwise fun t u => t.number < u.number
  accounts  : (s₀.afterAll o history).shared.registry = Registry.afterAll {} (s₀.ledger o history)
  tokens    : ∀ p ∈ c.results, ∀ t, p.token = some t → ∃ a earlier since, p.record.trace = some a ∧
    Registry.Grant (s₀.ledger o history) .publisher a t earlier since
  overall   : c.overall = true ↔ c.failedCount = 0
  satisfied : c.overall = true ↔ ∀ r ∈ c.records, r.satisfied = true

end State

theorem publication {o : Orchestrator} {s : State} {history : List Happening} {c : Completion}
    (h : o.initial = .ok s) (hc : .completed c ∈ (s.afterAll o history).channel.sent) :
    s.Publication o history c := by
  have hr := (State.collected_of_initial h history).told c <| .inl hc
  obtain ⟨capacity, rfl⟩ := State.eq_of_initial h
  obtain ⟨before, step, since, he, hp, hd⟩ :=
    State.exists_publish (State.mem_told.mpr hc) |>.resolve_left List.not_mem_nil
  obtain ⟨arriving, issuing, hu, hi, ho⟩ := hd.issues
  -- The publication as a part of the ledger.
  let s₀ : State := { channel := { capacity := capacity } }
  let earlier := s₀.ledger o before ++ arriving
  let later := ((s₀.afterAll o before).after o step).ledger o since
  have hl : s₀.ledger o history = earlier ++ (issuing ++ later) := by
    rw [he, State.ledger_append, State.ledger, hu]
    simp [earlier, later]
  have hi : Issues (Registry.afterAll {} earlier) issuing c.results := by
    rw [Registry.afterAll_append]
    exact State.registry_afterAll o s₀ before ▸ hi
  constructor
  case records =>
    obtain ⟨visits, hw⟩ := hp.happening
    obtain ⟨t, ht, hs⟩ := hp.task
    exact ⟨before, visits, since, t, hw ▸ he, ht, hs⟩
  case delivered => exact hr
  case traces => exact fun p hp => hi.token_isSome hp
  case ascending => exact State.ascending_of_told h <| State.mem_told.mpr hc
  case accounts => exact State.registry_afterAll o s₀ history
  case tokens =>
    intro p hp t ht
    obtain ⟨a, between, rest, ha, hb, hn⟩ := hi.exists_register hp ht
    refine ⟨a, earlier ++ between, rest ++ later, ha, ?_⟩
    have hl : s₀.ledger o history = (earlier ++ between) ++ .register .publisher a :: (rest ++ later) := by
      simp [hl, hb]
    rw [hl, hn, ← Registry.afterAll_append]
    exact Registry.grant ..
  case overall => exact c.overall_iff_failedCount ho
  case satisfied => exact ho ▸ Record.overall_iff

-- A run with two traces, while others register actions in between.
theorem publication_among_others :
    let traced (name : String) : Record :=
      { check := name, message := "", satisfied := false, trace := some (.note name .done) }
    let o : Orchestrator :=
      { runner := Runner.scripted [.record (traced "a"), .record (.passed "b" ""), .record (traced "c")] }
    let s : State := { channel := { capacity := 64 } }
    let others : Visits := [[], [.register .done], [.register .done]]
    let history :=
      .start "" { name := "m" } :: List.replicate 10 (.work ⟨1⟩ []) ++ [.work ⟨1⟩ others]
    let ending := s.afterAll o history
    o.initial = .ok s ∧ ∃ c, .completed c ∈ ending.channel.sent ∧
      c.results.map (·.token) = [some ⟨2⟩, none, some ⟨4⟩] ∧ s.Publication o history c := by
  intro traced o s others history ending
  have h : o.initial = .ok s := State.initial_of_runner _
  have ⟨c, hc, ht⟩ : ∃ c, c ∈ ending.desk.told ∧
      c.results.map (·.token) = [some ⟨2⟩, none, some ⟨4⟩] := by
    decide +kernel
  exact ⟨h, c, State.mem_told.mp hc, ht, publication h <| State.mem_told.mp hc⟩

end Orchestrator

end ModelAudit

import ModelAudit.Proofs.Orchestrator.Verdicts
import Mathlib.Order.Monotone.Basic

namespace ModelAudit.Orchestrator

open Incident

namespace State

-- The runner stands at a gate, where nobody lets it through or sends it away.
def Waits (s : State) (run : RunId) : Prop :=
  ∃ t heedsFlag passed stopped records, s.task? run = some t ∧
    t.stage = .checking (.gate heedsFlag passed stopped) records ∧ s.permits = 0 ∧
      (heedsFlag = true → ¬s.signals.IsRaised t.signal)

-- The state when so many things of an endless history have happened.
def course (o : Orchestrator) (s : State) (before : List Happening) (σ : Nat → Happening) (n : Nat) :
    State :=
  s.afterAll o (before ++ (List.range n).map σ)

variable {o : Orchestrator} {s s' s₀ : State} {t : Task} {run : RunId} {h : Happening} {visits : Visits}

section Progress

theorem waits_of_advance?_eq_none (ht : s.task? run = some t) (h : s.advance? o visits run = none) :
    s.Waits run := by
  have h : s.step? o visits t = none := by rwa [advance?, ht] at h
  cases hs : t.stage <;> simp only [step?, hs] at h
  case cleared => cases hspec : t.spec <;> simp [hspec] at h
  case checking work records =>
    cases work <;> simp only [work?] at h
    case done result => rcases result with e | _ <;> (try cases e) <;> cases h
    case gate heedsFlag passed stopped =>
      refine ⟨t, heedsFlag, passed, stopped, records, ht, hs, ?_⟩
      split at h
      · cases h
      · split at h
        · cases h
        · rename_i hp hr
          exact ⟨Nat.eq_zero_of_not_pos hp, fun hf hi => hr ⟨hf, hi⟩⟩
    all_goals cases h
  all_goals cases h

theorem stepsLeft_of_gone (hg : ∀ t ∈ s.tasks, t.run ≠ run) : s.stepsLeft o run = 0 := by
  rw [stepsLeft, task?_of_gone hg]
  rfl

-- Nobody but the run itself changes how much of its work is left.
theorem Turn.stepsLeft_le (ht : s.Turn o h s') (hr : run.number ≤ s.launches) :
    s'.stepsLeft o run ≤ s.stepsLeft o run := by
  by_cases hg : ∀ t ∈ s.tasks, t.run ≠ run
  case pos =>
    have ho : s'.lifecycle.Over run := ht.over ⟨hr, hg⟩
    exact Nat.le_of_eq (stepsLeft_of_gone ho.gone) |>.trans <| Nat.zero_le _
  case neg =>
    cases ht with
    | aside _ ht => simp [stepsLeft, task?, ht]
    | launch hl => simp [hl.tasks] at hg
    | @go t _ _ visits _ ht _ _ _ _ _ hs =>
      have hr : t.run = run := by simpa [ht] using hg
      have ha : s.advance? o visits t.run = some s' := by rwa [advance?, task?_of_tasks ht]
      exact hr ▸ Nat.le_of_lt (stepsLeft_lt_of_advance? ha)
    | close ht _ hg' =>
      refine Nat.le_of_eq (stepsLeft_of_gone ?_) |>.trans <| Nat.zero_le _
      rw [tasks_finish hg' ht]
      exact List.forall_mem_nil _

theorem stepsLeft_after_lt (ht : s.task? run = some t) (hw : ¬s.Waits run) (visits : Visits) :
    (s.after o (.work run visits)).stepsLeft o run < s.stepsLeft o run := by
  cases ha : s.advance? o visits run
  case none => exact absurd (waits_of_advance?_eq_none ht ha) hw
  case some s' =>
    rw [after, ha]
    exact stepsLeft_lt_of_advance? ha

theorem course_succ (o : Orchestrator) (s : State) (before : List Happening) (σ : Nat → Happening)
    (n : Nat) : s.course o before σ (n + 1) = (s.course o before σ n).after o (σ n) := by
  simp only [course, List.range_succ, List.map_append, ← List.append_assoc]
  exact afterAll_concat ..

-- As long as the work is in flight there is less of it left each time that it is taken up.
theorem exists_task?_eq_none (h : o.initial = .ok s₀) {before : List Happening}
    (hr : run.number ≤ (s₀.afterAll o before).launches) (σ : Nat → Happening)
    (hf : ∀ n, ∃ m, n ≤ m ∧ ∃ visits, σ m = .work run visits ∧ ¬(s₀.course o before σ m).Waits run) :
    ∃ n, (s₀.course o before σ n).task? run = none := by
  by_contra hn
  have hturn (n : Nat) : (s₀.course o before σ n).Turn o (σ n) (s₀.course o before σ (n + 1)) :=
    course_succ .. ▸ after_turn (coherent_of_initial h _) (σ n)
  have hlaunched (n : Nat) : run.number ≤ (s₀.course o before σ n).launches := by
    induction n
    case zero => simpa [course] using hr
    case succ n hi => exact hi.trans (hturn n).launches_le
  have hanti : Antitone fun n => (s₀.course o before σ n).stepsLeft o run :=
    antitone_nat_of_succ_le fun n => (hturn n).stepsLeft_le (hlaunched n)
  have hdrop (k : Nat) : ∃ n, (s₀.course o before σ n).stepsLeft o run + k ≤
      (s₀.course o before σ 0).stepsLeft o run := by
    induction k
    case zero => exact ⟨0, Nat.le_refl _⟩
    case succ k hi =>
      obtain ⟨n, hi⟩ := hi
      obtain ⟨m, hm, visits, hσ, hw⟩ := hf n
      obtain ⟨t, ht⟩ := Option.ne_none_iff_exists'.mp fun he => hn ⟨m, he⟩
      have hlt := stepsLeft_after_lt (o := o) ht hw visits
      rw [← hσ, ← course_succ] at hlt
      have hle : (s₀.course o before σ m).stepsLeft o run ≤ (s₀.course o before σ n).stepsLeft o run :=
        hanti hm
      exact ⟨m + 1, by omega⟩
  have ⟨n, hd⟩ := hdrop ((s₀.course o before σ 0).stepsLeft o run + 1)
  omega

end Progress

-- What a run has completed with in the course of a history.
structure Verdict (o : Orchestrator) (s₀ : State) (history : List Happening) (run : RunId)
    (text : String) (c : Completion) : Prop where
  refused  : ∀ e, CheckSet.parse text = .error e → c.digest = none ∧
    c.results = [⟨.violated Record.specificationLabel e.message, none⟩] ∧
      run ∉ (s₀.afterAll o history).entered
  entered  : ∀ checks, CheckSet.parse text = .ok checks → c.digest = some checks.digest ∧
    ∃ ending, s₀.endings o run history = [ending] ∧
      ending ≠ .waiting ∧ ending ≠ .value (.error .cancelled)
  passed   : s₀.endings o run history = [.value (.ok ())] →
    c.records = recordsOf run (s₀.chronicle o history)
  failed   : ∀ e, s₀.endings o run history = [.value (.error e)] →
    c.results = [⟨.violated Record.runnerLabel ("check run failed: " ++ e.message), none⟩]
  panicked : ∀ message, s₀.endings o run history = [.panicked message] → c.results =
    [⟨.violated Record.runnerLabel ("check run failed: panicked: " ++ message.getD "unknown panic"), none⟩]

-- What is known of a run from the moment at which it was launched.
structure Contained (o : Orchestrator) (s₀ : State) (before : List Happening) (run : RunId)
    (text : String) : Prop where
  -- An endless history in which the work is taken up again and again, and not only while it waits.
  ends      : ∀ σ : Nat → Happening,
    (∀ n, ∃ m, n ≤ m ∧ ∃ visits, σ m = .work run visits ∧ ¬(s₀.course o before σ m).Waits run) →
      ∃ n, (s₀.course o before σ n).task? run = none
  idle      : ∀ history h, (s₀.afterAll o (before ++ history)).task? run ≠ none →
    (s₀.afterAll o (before ++ history ++ [h])).task? run = none →
      (s₀.afterAll o (before ++ history ++ [h])).phase = .idle ∧
        ∀ text document, ((s₀.afterAll o (before ++ history ++ [h])).start text document).1 =
          .started ⟨(s₀.afterAll o (before ++ history ++ [h])).launches + 1⟩
  completed : ∀ history, (s₀.afterAll o (before ++ history)).task? run = none →
    .cancelled run ∉ (s₀.afterAll o (before ++ history)).channel.sent →
      ∃ c, completionsOf run (s₀.afterAll o (before ++ history)).channel.sent = [c] ∧
        s₀.Verdict o (before ++ history) run text c
  cancelled : ∀ history, .cancelled run ∈ (s₀.afterAll o (before ++ history)).channel.sent →
    completionsOf run (s₀.afterAll o (before ++ history)).channel.sent = [] ∧
      (Asked run (s₀.chronicle o (before ++ history)) ∨
        .returned run (.error .cancelled) ∈ s₀.chronicle o (before ++ history))

variable {text : String} {document : Document} {c : Completion} {history : List Happening}

theorem results_of_records {r : Record} (hr : c.records = [r]) (hn : r.trace = none)
    (ht : ∀ p ∈ c.results, p.token.isSome = p.record.hasTrace) : c.results = [⟨r, none⟩] := by
  obtain ⟨p, hp, rfl⟩ := List.map_eq_singleton_iff.mp hr
  have ht := ht p <| by simp [hp]
  rw [Record.hasTrace, hn] at ht
  have hn : p.token = none := Option.not_isSome_iff_eq_none.mp <| by simp [ht]
  rw [hp, ← hn]

theorem idle_of_started (h : (s.start text document).1 = .started run) :
    s.phase = .idle ∧ run = ⟨s.launches + 1⟩ := by
  cases hp : s.phase <;> rw [start, hp] at h
  case idle => exact ⟨rfl, (StartOutcome.started.inj h).symm⟩
  case running => cases h
  case cancelling => cases h

theorem started_of_idle (hp : s.phase = .idle) (text : String) (document : Document) :
    (s.start text document).1 = .started ⟨s.launches + 1⟩ := by
  rw [start, hp]
  rfl

-- A run that is no longer in flight has ended in the step before, and with it the phase.
theorem Turn.idle_of_ended (ht : s.Turn o h s') (hs : s.task? run ≠ none) (hn : s'.task? run = none) :
    s'.phase = .idle := by
  cases ht with
  | aside _ ht => exact absurd (by rwa [task?, ← ht]) hs
  | launch hl => simp [task?, hl.tasks] at hs
  | go ht _ _ ht' => simp_all [task?]
  | close _ _ hg => exact phase_finish hg

theorem verdict (hc : Concluded (CheckSet.parse text) (s₀.endings o run history) c.records)
    (hd : c.digest = (CheckSet.parse text).toOption.map CheckSet.digest)
    (ht : ∀ p ∈ c.results, p.token.isSome = p.record.hasTrace)
    (hr : .returned run (.ok ()) ∈ s₀.chronicle o history →
      c.records = recordsOf run (s₀.chronicle o history))
    (he : ∀ e, CheckSet.parse text = .error e → run ∉ (s₀.afterAll o history).entered) :
    s₀.Verdict o history run text c := by
  constructor
  case passed => exact fun h => hr <| value_mem_endings.mp <| by simp [h]
  all_goals generalize hrs : c.records = records at hc
  case refused =>
    intro e hp
    rw [hp] at hc hd
    generalize s₀.endings o run history = endings at hc
    cases hc
    case refused h => cases h; exact ⟨hd, results_of_records hrs rfl ht, he e hp⟩
    case passed h => cases h
    case failed h _ => cases h
    case panicked h => cases h
  case entered =>
    intro checks hp
    rw [hp] at hc hd
    generalize s₀.endings o run history = endings at hc
    cases hc
    case refused h => cases h
    case passed => exact ⟨hd, _, rfl, nofun, nofun⟩
    case failed hn => exact ⟨hd, _, rfl, nofun, fun he => hn <| Except.error.inj <| Ending.value.inj he⟩
    case panicked => exact ⟨hd, _, rfl, nofun, nofun⟩
  case failed =>
    intro e h
    rw [h] at hc
    cases hc
    exact results_of_records hrs rfl ht
  case panicked =>
    intro message h
    rw [h] at hc
    cases hc
    exact results_of_records hrs rfl ht

theorem mem_completionsOf {sent : List RunEvent} :
    c ∈ completionsOf run sent ↔ .completed c ∈ sent ∧ c.run = run := by
  simp only [completionsOf, List.mem_filter, decide_eq_true_eq]
  exact and_congr_left fun _ => mem_told (s := { channel := { capacity := 0, sent } })

end State

open State

theorem failures_contained {o : Orchestrator} {s : State} {before : List Happening} {text : String}
    {document : Document} {run : RunId} (h : o.initial = .ok s)
    (hs : ((s.afterAll o before).start text document).1 = .started run) :
    s.Contained o (before ++ [.start text document]) run text := by
  obtain ⟨hp, rfl⟩ := idle_of_started hs
  have hf := fate_afterAll h (fate_of_launch h before hp text document) <|
    not_entered_of_launch h before hp text document
  constructor
  case ends =>
    refine exists_task?_eq_none h <| Nat.le_of_eq ?_
    rw [afterAll_concat, after_launches (coherent_of_initial h before) hp text document |>.launches]
  case idle =>
    intro history h' hs hn
    rw [afterAll_concat] at hn ⊢
    have hi := after_turn (coherent_of_initial h _) h' |>.idle_of_ended hs hn
    exact ⟨hi, started_of_idle hi⟩
  case completed =>
    intro history hn hs
    have ⟨hf, he⟩ := hf history
    cases hf
    case underway t ht hc _ _ _ =>
      rw [← hc.run, task?_of_tasks ht] at hn
      cases hn
    case cancelled hm => exact absurd hm hs
    case completed c _ hc hd ht hc' _ =>
      have ⟨hm, hr⟩ := mem_completionsOf.mp <| hc' ▸ List.mem_singleton_self c
      refine ⟨c, hc', verdict hc hd ht (fun hr' => ?_) he⟩
      rw [← hr] at hr' ⊢
      exact collected_of_initial h _ |>.told c (.inl hm) hr'
  case cancelled =>
    intro history hm
    cases (hf history).left
    case underway hs => exact absurd hm hs
    case cancelled hr hn _ => exact ⟨hn, hr.imp_right value_mem_endings.mp⟩
    case completed hs => exact absurd hm hs

-- A runner that panics when it has delivered a record already.
theorem failures_contained_of_panic :
    let o : Orchestrator := { runner := Runner.scripted [.record (.passed "a" ""), .panic "gone"] }
    let s : State := { channel := { capacity := 64 } }
    let start : Happening := .start "" { name := "m" }
    let ending := s.afterAll o (start :: List.replicate 8 (.work ⟨1⟩ []))
    o.initial = .ok s ∧ (s.start "" { name := "m" }).1 = .started ⟨1⟩ ∧
      s.Contained o [start] ⟨1⟩ "" ∧ ending.phase = .idle ∧
        (completionsOf ⟨1⟩ ending.channel.sent).map (·.results) =
          [[⟨.violated "runner" "check run failed: panicked: gone", none⟩]] := by
  intro o s start ending
  have h : o.initial = .ok s := initial_of_runner _
  have hs : ((s.afterAll o []).start "" { name := "m" }).1 = .started ⟨1⟩ := by decide +kernel
  exact ⟨h, hs, failures_contained h hs, by decide +kernel, by decide +kernel⟩

end ModelAudit.Orchestrator

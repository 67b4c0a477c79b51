import ModelAudit.Proofs.Orchestrator.Containment
import ModelAudit.Proofs.Orchestrator.Interrupts
import ModelAudit.Proofs.Orchestrator.ProblemEntries
import ModelAudit.Proofs.Orchestrator.TokenLifetime
import ModelAudit.Proofs.Runner.Cancellation

namespace ModelAudit

open Activity (Prompt)

namespace Orchestrator

open Incident

-- The runner ends at the first look that shows the flag raised, and otherwise in its own time.
def RunsPromptly (o : Orchestrator) : Prop :=
  ∀ spec document, ∃ n, Prompt (· = .ok ()) n (o.runner spec document)

theorem runsPromptly_builtin {o : Orchestrator} (h : o.runner = Catalog.builtin.runner) :
    o.RunsPromptly :=
  fun spec document => ⟨spec.entries.length, h ▸ Catalog.runEntries_prompt document spec.entries⟩

-- The records that a run comes to when nobody asks it to stop.
def recordsFor (o : Orchestrator) (text : String) (document : Document) : List Record :=
  match CheckSet.parse text with
  | .error e => [.violated Record.specificationLabel e.message]
  | .ok spec => ((o.runner spec document).perform .never).records

-- Others use the registry at most, and nobody comes in between while results are published.
def Happening.Calm : Happening → Prop
  | .start .. | .visit (.push _) | .visit (.remove _) | .abandon => False
  | .work _ visits => visits = []
  | _ => True

-- How far the work is on its way to the records that it comes to when nobody asks it to stop.
inductive Stage.Heads (o : Orchestrator) (text : String) (document : Document) : Stage → Prop
  | launched : Heads o text document .launched
  | cleared : Heads o text document .cleared
  | checking {n work p records} (hw : Prompt (· = .ok ()) n work) (hp : p.raised = false)
    (hr : records ++ (work.performFrom .never p).records = o.recordsFor text document) :
    Heads o text document (.checking work records)
  | ended : Heads o text document (.ended (.finished (o.recordsFor text document)))
  | settled : Heads o text document (.settled (.finished (o.recordsFor text document)))

-- What is left of the entries that the run has found in the problem list.
def Stage.spared (found : ProblemList) : Stage → ProblemList
  | .launched => found
  | _ => found.remove .sanity

section Heads

variable {o : Orchestrator} {text : String} {document : Document} {signals : Signals} {t : Task}
  {facts : List Incident} {events : List RunEvent} {stage : Stage}

theorem Stage.Heads.prompt {work : Activity (Except AuditError Unit)} {records : List Record}
    (hh : stage.Heads o text document) (hs : stage = .checking work records) :
    ∃ n p, Prompt (· = .ok ()) n work ∧ p.raised = false ∧
      records ++ (work.performFrom .never p).records = o.recordsFor text document := by
  cases hh with
  | checking hw hp hr => cases hs; exact ⟨_, _, hw, hp, hr⟩
  | _ => cases hs

theorem Stage.Heads.records {outcome : Outcome} (hh : stage.Heads o text document)
    (hs : stage = .ended outcome ∨ stage = .settled outcome) :
    outcome = .finished (o.recordsFor text document) := by
  cases hh
  case ended => simpa [eq_comm] using hs
  case settled => simpa [eq_comm] using hs
  all_goals simp at hs

theorem Stage.Heads.not_press {next : Activity (Except AuditError Unit)} {records : List Record}
    (hh : stage.Heads o text document) : stage ≠ .checking (.press next) records := by
  intro hs
  obtain ⟨_, _, hw, _⟩ := hh.prompt hs
  cases hw

theorem Stage.Heads.not_gate {heedsFlag : Bool} {passed stopped : Activity (Except AuditError Unit)}
    {records : List Record} (hh : stage.Heads o text document) :
    stage ≠ .checking (.gate heedsFlag passed stopped) records := by
  intro hs
  obtain ⟨_, _, hw, _⟩ := hh.prompt hs
  cases hw

-- As long as the signal is not raised, the work stays on its way.
theorem Task.Moves.heads (ho : o.RunsPromptly) (hm : t.Moves o signals facts events stage)
    (hh : t.stage.Heads o text document) (hs : t.spec = CheckSet.parse text)
    (hd : t.document = document) (hr : ¬signals.IsRaised t.signal) : stage.Heads o text document := by
  cases hm
  case clear => exact .cleared
  case refuse e _ he =>
    have hr : o.recordsFor text document = [.violated Record.specificationLabel e.message] := by
      rw [recordsFor, ← hs, he]
    exact hr ▸ .ended
  case enter spec _ he =>
    obtain ⟨n, hw⟩ := ho spec t.document
    refine .checking hw (p := {}) rfl ?_
    rw [recordsFor, ← hs, he, ← hd]
    rfl
  case poll next records he =>
    obtain ⟨_, p, hw, hp, hrec⟩ := hh.prompt he
    cases hw with
    | poll _ hw =>
      simp only [hr, decide_false]
      simp only [Activity.performFrom, Activity.sees_never hp] at hrec
      exact .checking hw rfl hrec
  case emit he =>
    obtain ⟨_, p, hw, hp, hrec⟩ := hh.prompt he
    cases hw with
    | emit hw => exact .checking hw hp hrec
  case deliver record next records he =>
    obtain ⟨_, p, hw, hp, hrec⟩ := hh.prompt he
    cases hw with
    | deliver hw =>
      refine .checking hw (p := { p with deliveries := p.deliveries + 1 }) hp ?_
      rw [← hrec, List.append_assoc]
      rfl
  case pass he => exact absurd he hh.not_gate
  case stop he _ => exact absurd he hh.not_gate
  case finish records he =>
    obtain ⟨_, p, _, _, hrec⟩ := hh.prompt he
    have hrec : records = o.recordsFor text document := by
      rw [← hrec]
      exact (List.append_nil _).symm
    exact hrec ▸ .ended
  case cancel he =>
    obtain ⟨_, _, hw, _⟩ := hh.prompt he
    cases hw with
    | done h => cases h
  case fail he _ =>
    obtain ⟨_, _, hw, _⟩ := hh.prompt he
    cases hw with
    | done h => cases h
  case panic he =>
    obtain ⟨_, _, hw, _⟩ := hh.prompt he
    cases hw
  case approve he _ =>
    cases hh.records (.inl he)
    exact .settled
  case discard hi => exact absurd hi hr
  case settle he => cases hh.records (.inl he)

theorem Task.Goes.heads (ho : o.RunsPromptly) (hg : t.Goes o signals events stage)
    (hh : t.stage.Heads o text document) (hs : t.spec = CheckSet.parse text)
    (hd : t.document = document) (hr : ¬signals.IsRaised t.signal) : stage.Heads o text document := by
  cases hg
  case move hm => exact hm.heads ho hh hs hd hr
  case press he => exact absurd he hh.not_press

end Heads

theorem Desk.Step.last_eq {d d' : Desk} {uses : List Registry.Use} {c : Completion}
    (hs : d.Step uses (some c) d') : d'.last = some c := by
  cases hs
  rfl

-- When nobody comes in between while results are published, nothing is taken from under their tokens.
theorem Desk.Step.find?_of_alone {d d' : Desk} {ledger uses : List Registry.Use} {c : Completion}
    {p : Published} {token : Token} (hs : d.Step uses (some c) d') (hk : d.Kept ledger)
    (hu : ∀ use ∈ uses, use = .revoke .publisher d.published ∨ ∃ a, use = .register .publisher a)
    (hp : p ∈ c.results) (ht : p.token = some token) :
    ∃ a, p.record.trace = some a ∧ d'.registry.find? token = some a := by
  cases hs with
  | @publish _ arriving issuing _ hi _ =>
    obtain ⟨a, between, rest, ha, rfl, rfl⟩ := hi.exists_register hp ht
    refine ⟨a, ha, ?_⟩
    have hn : d.registry.Numbered := by
      rw [hk.accounts]
      exact Registry.numbered_empty.afterAll _
    let earlier := arriving ++ [.revoke .publisher d.published] ++ between
    have he : arriving ++ .revoke .publisher d.published :: (between ++ .register .publisher a :: rest) =
        earlier ++ .register .publisher a :: rest := by simp [earlier]
    have hclear (use) (hm : use ∈ rest) : ¬use.Clears ((d.registry.afterAll earlier).register a).1 := by
      intro hc
      rcases hu use (he ▸ by simp [hm]) with rfl | ⟨_, rfl⟩
      · -- The tokens of the completion before were issued earlier.
        obtain ⟨x, hx, _, he⟩ := hk.issued_of_published hc
        have hlt := hk.number_lt hx
        rw [he] at hlt
        exact absurd hlt <| Nat.not_lt_of_le <| d.registry.next_le_afterAll earlier
      · cases hc
    have hf := Registry.find?_of_register (hn.afterAll earlier) .publisher a hclear
    rw [← Registry.afterAll_append, ← he, Registry.afterAll_append d.registry _ between] at hf
    exact hf

-- What has been told since then does not close a run.
def Continues (before sent : List RunEvent) : Prop :=
  ∃ events, sent = before ++ events ∧ ∀ event ∈ events, event.closing? = none

theorem Continues.append {before sent events : List RunEvent} (h : Continues before sent)
    (hn : ∀ event ∈ events, event.closing? = none) : Continues before (sent ++ events) := by
  obtain ⟨told, rfl, ht⟩ := h
  exact ⟨told ++ events, List.append_assoc .., List.forall_mem_append.mpr ⟨ht, hn⟩⟩

namespace State

variable {o : Orchestrator} {s s' s₀ s₁ : State} {text : String} {document : Document}
  {found : ProblemList} {t : Task} {h : Happening} {facts : List Incident}

-- A run that was launched in the second state and that nobody has disturbed so far.
structure Underway (o : Orchestrator) (s s₁ : State) (text : String) (document : Document) (t : Task) :
    Prop where
  tasks    : s.tasks = [t]
  carries  : t.Carries ⟨s₁.launches + 1⟩ text
  model    : t.document = document
  heads    : t.stage.Heads o text document
  unset    : ¬s.signals.IsRaised t.signal
  problems : s.shared.problems = t.stage.spared s₁.shared.problems
  told     : Continues s₁.channel.sent s.channel.sent

section Steps

theorem visitAll_of_calm (hc : h.Calm) (l : ProblemList) : l.visitAll h.visits = l := by
  cases h with
  | visit v =>
    cases v with
    | push => cases hc
    | remove => cases hc
    | _ => rfl
  | _ => rfl

theorem requested_of_calm (hc : h.Calm)
    (hn : ∀ t ∈ s.tasks, ∀ next records, t.stage ≠ .checking (.press next) records) :
    requested (s.incidents h) = [] := by
  cases h with
  | work run visits =>
    cases ht : s.task? run
    case none => simp [incidents, ht, requested]
    case some t =>
      have hn := hn t <| List.mem_of_find?_eq_some ht
      simp only [incidents, ht, Option.map_some, Option.getD_some, Task.incidents]
      split
      · exact absurd ‹_› (hn _ _)
      all_goals rfl
  | start => cases hc
  | abandon => cases hc
  | _ => rfl

-- Nobody raises a signal who does not press the button.
theorem signals_of_calm (hc : s.lifecycle.Coherent facts) (hi : s.lifecycle.Interruptible facts)
    (hcalm : h.Calm) (hn : ∀ t ∈ s.tasks, ∀ next records, t.stage ≠ .checking (.press next) records)
    {x : Signal} (hx : (s.after o h).signals.IsRaised x) : s.signals.IsRaised x := by
  rcases (aimed (o := o) hc hi h).raised x hx with hx | ⟨_, _, _, hr | rfl⟩
  · exact hx
  · rw [requested_of_calm hcalm hn] at hr
    cases hr
  · cases hcalm

theorem problems_of_step? {visits : Visits} (hs : s.step? o visits t = some s')
    (hn : ∀ outcome, t.stage ≠ .settled outcome) {events : List RunEvent} {stage : Stage}
    (hg : t.Goes o s.signals events stage) (hp : s.shared.problems = t.stage.spared found) :
    s'.shared.problems = stage.spared found := by
  have hl : stage.spared found = found.remove .sanity := by
    cases hst : stage with
    | launched => exact absurd hst hg.ne_launched
    | _ => rfl
  rw [hl]
  by_cases hl : t.stage = .launched
  case pos =>
    rw [cleared_of_step? hs hl |>.left, hp, hl]
    rfl
  case neg =>
    rw [kept_of_step? hs hl hn |>.left, hp]
    cases hst : t.stage with
    | launched => exact absurd hst hl
    | _ => rfl

theorem underway_of_launch (hc : s.lifecycle.Coherent facts) (hp : s.phase = .idle) (text : String)
    (document : Document) : (s.after o (.start text document)).Underway o s text document
      (s.lifecycle.nextTask text document) := by
  have hl := after_launches (o := o) hc hp text document
  constructor
  case tasks => exact hl.tasks'
  case carries => exact ⟨rfl, rfl, rfl⟩
  case model => rfl
  case heads => exact .launched
  case unset =>
    have hs : (s.after o (.start text document)).signals = s.signals.issue.2 := by
      rw [after, start, hp]
      rfl
    rw [hs]
    exact fun hx => Nat.lt_irrefl _ <| hc.fresh _ hx
  case problems => exact congrArg Shared.problems hl.shared
  case told => exact ⟨_, hl.sent, List.forall_mem_singleton.mpr rfl⟩

-- The run goes on undisturbed, or it publishes what it has come to.
theorem Underway.after (ho : o.RunsPromptly) (hu : s.Underway o s₁ text document t)
    (hc : s.lifecycle.Coherent facts) (hi : s.lifecycle.Interruptible facts) (hcalm : h.Calm) :
    (∃ t', (s.after o h).Underway o s₁ text document t') ∨
      h = .work t.run [] ∧ t.stage = .settled (.finished (o.recordsFor text document)) ∧
        s.generation = t.generation := by
  have hpress : ∀ t' ∈ s.tasks, ∀ next records, t'.stage ≠ .checking (.press next) records := by
    rw [hu.tasks, List.forall_mem_singleton]
    exact fun _ _ => hu.heads.not_press
  have hx {x : Signal} := signals_of_calm (o := o) (x := x) hc hi hcalm hpress
  have ht := after_turn (o := o) hc h
  generalize hs' : s.after o h = s' at ht hx
  cases ht with
  | launch => cases hcalm
  | aside _ ht hsent _ _ hp =>
    refine .inl ⟨t, ht.trans hu.tasks, hu.carries, hu.model, hu.heads, mt hx hu.unset, ?_, hsent ▸ hu.told⟩
    rw [hp, visitAll_of_calm hcalm, hu.problems]
  | @go t' _ stage _ _ ht hn hg ht' hsent _ hs =>
    obtain rfl : t = t' := by simpa [hu.tasks] using ht
    have hca := hu.carries
    refine .inl ⟨_, ht', ⟨hca.run, hca.spec, hca.digest⟩, hu.model, ?_, mt hx hu.unset, ?_, ?_⟩
    · exact hg.heads ho hu.heads hu.carries.spec hu.model hu.unset
    · exact problems_of_step? hs hn hg hu.problems
    · exact hsent ▸ hu.told.append hg.closing?_eq_none
  | @close t' outcome visits ht hs hg =>
    obtain rfl : t = t' := by simpa [hu.tasks] using ht
    obtain rfl : visits = [] := hcalm
    cases hu.heads.records (.inr hs)
    exact .inr ⟨rfl, hs, hg⟩

end Steps

-- What a run that was launched in the second state leaves behind, with the completion that it has come
-- to.
structure Leaves (o : Orchestrator) (s s₁ : State) (text : String) (document : Document) (c : Completion) :
    Prop where
  idle     : s.phase = .idle
  tasks    : s.tasks = []
  last     : s.last = some c
  told     : ∃ sent, Continues s₁.channel.sent sent ∧ s.channel.sent = sent ++ [.completed c]
  run      : c.run = ⟨s₁.launches + 1⟩
  digest   : c.digest = (CheckSet.parse text).toOption.map CheckSet.digest
  records  : c.records = o.recordsFor text document
  traces   : ∀ p ∈ c.results, p.token.isSome = p.record.hasTrace
  overall  : c.overall = Record.overall c.records
  problems : s.shared.problems.entries =
    (s₁.shared.problems.remove .sanity).entries ++ o.entriesOf c.records
  -- Under each token the trace of its record is kept.
  tokens   : ∀ p ∈ c.results, ∀ t, p.token = some t →
    ∃ a, p.record.trace = some a ∧ s.shared.registry.find? t = some a

theorem Leaves.mem_sent {c : Completion} (hl : s.Leaves o s₁ text document c) :
    .completed c ∈ s.channel.sent := by
  obtain ⟨_, _, he⟩ := hl.told
  simp [he]

section Publish

theorem entries_report (s : Shared) (ps : List Problem) :
    (report [] s ps).problems.entries = s.problems.entries ++ ps := by
  induction ps generalizing s
  case nil => exact (List.append_nil _).symm
  case cons p ps hi =>
    refine (hi _).trans ?_
    exact List.append_assoc ..

theorem problems_finish (hg : s.generation = t.generation) (records : List Record) :
    (s.finish o [] t (.finished records)).shared.problems.entries =
      s.shared.problems.entries ++ o.entriesOf records := by
  have ⟨shared, hp, hs⟩ := exists_report_finish (o := o) hg [] records
  rw [hs, List.drop_nil, entries_report, hp]
  simp [taken, ProblemList.visitAll]

theorem leaves_of_publish (h : o.initial = .ok s₀) {history : List Happening}
    (hu : (s₀.afterAll o history).Underway o s₁ text document t)
    (hs : t.stage = .settled (.finished (o.recordsFor text document)))
    (hg : (s₀.afterAll o history).generation = t.generation) :
    ∃ c, ((s₀.afterAll o history).after o (.work t.run [])).channel.sent =
        (s₀.afterAll o history).channel.sent ++ [.completed c] ∧
      ((s₀.afterAll o history).after o (.work t.run [])).Leaves o s₁ text document c := by
  have hk := desk_kept h history
  have halone := @mem_uses_of_alone o (s₀.afterAll o history) t.run
  have hwork := work_desk o (s₀.afterAll o history) t.run []
  generalize s₀.afterAll o history = s at *
  have he : s.after o (.work t.run []) = s.finish o [] t (.finished (o.recordsFor text document)) := by
    rw [after, advance?, task?_of_tasks hu.tasks, Option.bind_some, step?, hs]
    rfl
  rw [he] at hwork ⊢
  obtain ⟨c, hc, hsent⟩ := sent_finish_finished (o := o) hg [] (o.recordsFor text document)
  have hp := problems_finish (o := o) hg (o.recordsFor text document)
  have hi : (s.finish o [] t (.finished (o.recordsFor text document))).phase = .idle := phase_finish hg
  have ht : (s.finish o [] t (.finished (o.recordsFor text document))).tasks = [] :=
    tasks_finish hg hu.tasks
  have htold : (s.finish o [] t (.finished (o.recordsFor text document))).desk.told =
      s.desk.told ++ [c] := by
    rw [desk, hsent]
    simp [desk, RunEvent.completed?]
  generalize s.finish o [] t (.finished (o.recordsFor text document)) = s' at *
  rcases hwork with ⟨c', _, hd⟩ | ⟨_, hd⟩
  · obtain rfl : c = c' := by simpa [htold] using hd.told_eq
    obtain ⟨_, _, _, _, hoverall⟩ := hd.issues
    exact ⟨c, hsent, {
      idle     := hi
      tasks    := ht
      last     := hd.last_eq
      told     := ⟨_, hu.told, hsent⟩
      run      := hc.run.trans hu.carries.run
      digest   := hc.digest.trans hu.carries.digest
      records  := hc.records
      traces   := hc.traces
      overall  := hoverall
      problems := by rw [hp, hc.records, hu.problems, hs]; rfl
      tokens   := fun p hp token ht => hd.find?_of_alone hk (fun _ hm => halone hm) hp ht }⟩
  · exact absurd (htold ▸ hd ▸ rfl : s.desk.told ++ [c] = s.desk.told) <| by simp

end Publish

-- What happens from the launch of a run to its end, when nobody disturbs it.
structure Course (o : Orchestrator) (s : State) (text : String) (document : Document)
    (history : List Happening) : Prop where
  calm  : ∀ h ∈ history, h.Calm
  lasts : ∀ part, part <+: history → part ≠ history →
    (s.afterAll o (.start text document :: part)).phase ≠ .idle
  ends  : (s.afterAll o (.start text document :: history)).phase = .idle

section Course

variable {before history : List Happening}

theorem Underway.not_idle (hu : s.Underway o s₁ text document t)
    (hc : s.lifecycle.Coherent facts) : s.phase ≠ .idle := by
  intro hp
  have ht : s.tasks = [] := hc.flight.grounded_of_idle hp |>.right
  cases hu.tasks.symm.trans ht

-- In the course of calm happenings the run is under way until it comes to its end.
theorem underway_or_left (h : o.initial = .ok s₀) (ho : o.RunsPromptly)
    (hp : (s₀.afterAll o before).phase = .idle) (text : String) (document : Document)
    (hc : ∀ h ∈ history, h.Calm) :
    (∃ t, (s₀.afterAll o (before ++ .start text document :: history)).Underway o (s₀.afterAll o before)
        text document t) ∨
      ∃ part c, part <+: history ∧ (s₀.afterAll o (before ++ .start text document :: part)).Leaves o
        (s₀.afterAll o before) text document c := by
  induction history using List.reverseRecOn
  case nil =>
    rw [afterAll_concat]
    exact .inl ⟨_, underway_of_launch (coherent_of_initial h before) hp text document⟩
  case append_singleton history h' hi =>
    have ⟨hc, hc'⟩ := List.forall_mem_append.mp hc
    have hc' : h'.Calm := hc' h' <| List.mem_singleton_self h'
    rcases hi hc with ⟨t, hu⟩ | ⟨part, c, hpart, hl⟩
    · have hcoh := coherent_of_initial h (before ++ .start text document :: history)
      have hint := (interruptible_of_initial h (before ++ .start text document :: history)).left
      rw [← List.cons_append, ← List.append_assoc, afterAll_concat]
      rcases hu.after ho hcoh hint hc' with hu | ⟨rfl, hs, hg⟩
      · exact .inl hu
      · obtain ⟨c, _, hl⟩ := leaves_of_publish h hu hs hg
        exact .inr ⟨_, c, List.prefix_rfl, by rwa [← List.cons_append, ← List.append_assoc, afterAll_concat]⟩
    · exact .inr ⟨part, c, hpart.trans <| List.prefix_append .., hl⟩

theorem Course.leaves (h : o.initial = .ok s₀) (ho : o.RunsPromptly)
    (hp : (s₀.afterAll o before).phase = .idle)
    (hc : (s₀.afterAll o before).Course o text document history) : ∃ c,
      (s₀.afterAll o (before ++ .start text document :: history)).Leaves o (s₀.afterAll o before)
        text document c := by
  rcases underway_or_left h ho hp text document hc.calm with ⟨t, hu⟩ | ⟨part, c, hpart, hl⟩
  · refine absurd ?_ <| hu.not_idle <| coherent_of_initial h _
    rw [afterAll_append]
    exact hc.ends
  · by_cases he : part = history
    · exact ⟨c, he ▸ hl⟩
    · refine absurd ?_ <| hc.lasts part hpart he
      rw [← afterAll_append]
      exact hl.idle

theorem Underway.not_waits (hu : s.Underway o s₁ text document t) (run : RunId) : ¬s.Waits run := by
  rintro ⟨t', _, _, _, _, ht, hs, _⟩
  obtain rfl : t' = t := by simpa [hu.tasks] using List.mem_of_find?_eq_some ht
  exact hu.heads.not_gate hs

-- A run that is under way comes to its end if its work is taken up, and nothing else happens.
theorem Underway.exists_course (h : o.initial = .ok s₀) (ho : o.RunsPromptly)
    (hu : (s₀.afterAll o (before ++ .start text document :: history)).Underway o (s₀.afterAll o before)
      text document t)
    (hc : ∀ h ∈ history, h.Calm) (hl : ∀ part, part <+: history →
      (s₀.afterAll o (before ++ .start text document :: part)).phase ≠ .idle) :
    ∃ n, (s₀.afterAll o before).Course o text document
      (history ++ List.replicate n (.work ⟨(s₀.afterAll o before).launches + 1⟩ [])) := by
  let run : RunId := ⟨(s₀.afterAll o before).launches + 1⟩
  induction hk : (s₀.afterAll o (before ++ .start text document :: history)).stepsLeft o run using
    Nat.strong_induction_on generalizing history t
  case h k hi =>
    let work : Happening := .work run []
    have hcoh := coherent_of_initial h (before ++ .start text document :: history)
    have hint := (interruptible_of_initial h (before ++ .start text document :: history)).left
    have hlt := stepsLeft_after_lt (o := o) (hu.carries.run ▸ task?_of_tasks hu.tasks) (hu.not_waits run) []
    have hca : ∀ h ∈ history ++ [work], h.Calm :=
      List.forall_mem_append.mpr ⟨hc, List.forall_mem_singleton.mpr rfl⟩
    have hnext : s₀.afterAll o (before ++ .start text document :: (history ++ [work])) =
        (s₀.afterAll o (before ++ .start text document :: history)).after o work := by
      rw [← List.cons_append, ← List.append_assoc, afterAll_concat]
    rw [← hnext] at hlt
    rcases hu.after ho hcoh hint (h := work) rfl with ⟨t', hu'⟩ | ⟨_, hs, hg⟩
    · rw [← hnext] at hu'
      have hl' (part) (hp : part <+: history ++ [work]) :
          (s₀.afterAll o (before ++ .start text document :: part)).phase ≠ .idle := by
        rcases List.prefix_concat_iff.mp hp with rfl | hp
        · exact hu'.not_idle <| coherent_of_initial h _
        · exact hl part hp
      obtain ⟨n, hn⟩ := hi _ (hk ▸ hlt) hu' hca hl' rfl
      exact ⟨n + 1, by simpa [List.replicate_succ, work] using hn⟩
    · obtain ⟨c, _, hleaves⟩ := leaves_of_publish h hu hs hg
      rw [hu.carries.run, ← hnext, afterAll_append] at hleaves
      refine ⟨1, hca, fun part hp hne => ?_, hleaves.idle⟩
      rw [← afterAll_append]
      exact hl part <| (List.prefix_concat_iff.mp hp).resolve_left hne

theorem exists_course (h : o.initial = .ok s₀) (ho : o.RunsPromptly)
    (hp : (s₀.afterAll o before).phase = .idle) (hc : ∀ h ∈ history, h.Calm)
    (hl : ∀ part, part <+: history →
      (s₀.afterAll o (before ++ .start text document :: part)).phase ≠ .idle) :
    ∃ n, (s₀.afterAll o before).Course o text document
      (history ++ List.replicate n (.work ⟨(s₀.afterAll o before).launches + 1⟩ [])) := by
  rcases underway_or_left h ho hp text document hc with ⟨t, hu⟩ | ⟨part, c, hpart, hleaves⟩
  · exact hu.exists_course h ho hc hl
  · exact absurd hleaves.idle <| hl part hpart

end Course

end State

end Orchestrator

end ModelAudit

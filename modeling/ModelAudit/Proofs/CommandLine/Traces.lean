import ModelAudit.CommandLine.Perform
import ModelAudit.Proofs.Runner.Traces
import ModelAudit.Proofs.Session.Waiting

namespace ModelAudit

-- The link to the trace of a result, as it stands in a report.
def Published.link (p : Published) : String :=
  match p.token with
  | some t => " (trace: " ++ t.text ++ ")"
  | none => ""

theorem Published.link_ne_iff {p : Published} : p.link ≠ "" ↔ p.token.isSome = true := by
  unfold link
  cases p.token with
  | none => simp
  | some t => simp [String.append_eq_empty_iff]

theorem Completion.renderText_eq (stamp : Stamp) (c : Completion) : c.renderText stamp =
    c.heading stamp ++ String.join (c.results.mapIdx fun i p =>
      ordinal i ++ mark p.record.satisfied ++ " " ++ p.record.check ++ ": " ++ p.record.message ++ p.link ++
        "\n") ++ "\n" ++ c.verdict stamp :=
  rfl

-- Who invokes a token that an action which shows a trace is kept under is shown that trace.
theorem Registry.invoke_displaying {r : Registry} {token : Token} {trace : Trace}
    (h : r.find? token = some (.displaying trace)) :
    (r.invoke token).answer = .done ∧ (r.invoke token).deeds = [.invoked token, .displayed trace] := by
  rw [invoke_of_find? h]
  simp [Action.displaying, run, Outcome.after]

namespace CommandLine

open Session (Awaited Turn)

variable {files : Files} {config : Config} {model : String} {specification : Option String}
  {session : Session.State}

-- A session that was just opened has an orchestrator that has done nothing yet.
theorem initial_of_openSession (h : openSession files config model specification = .ok session) :
    (orchestrator config).initial = .ok session.orchestrator := by
  unfold openSession at h
  cases ht : readText files "model" model with
  | error => rw [ht] at h; cases h
  | ok text =>
    rw [ht] at h
    simp only [bind, Except.bind] at h
    split at h
    · cases h
    · split at h
      · cases h
      · rename_i session' hs
        have hi := Session.orchestrator_of_initial hs
        split at h
        · cases h
          exact hi
        · split at h <;> cases h
          exact hi

theorem showsTrace_of_recordsFor {text : String} {document : Document} {r : Record}
    (h : r ∈ (orchestrator config).recordsFor text document) : r.ShowsTrace := by
  unfold Orchestrator.recordsFor at h
  split at h
  · rw [List.mem_singleton.mp h]
    exact .of_untraced rfl
  · exact Catalog.showsTrace_of_runner _ document r h

section Trace

variable {s s₁ : Orchestrator.State} {text : String} {document : Document} {c : Completion} {p : Published}
  {index : Nat} {token : Token} {trace : Trace}

theorem showTrace_of_untraced (ht : p.token = none) :
    showTrace config s p index = .failed "" (noTrace index p.record.check) := by
  rw [showTrace, ht]

theorem showTrace_of_traced (ht : p.token = some token)
    (hf : s.shared.registry.find? token = some (.displaying trace)) :
    showTrace config s p index =
      .printed (p.record.check ++ ": " ++ p.record.message ++ "\n" ++ trace.display) := by
  have ⟨ha, hd⟩ := Registry.invoke_displaying hf
  have hdeeds : ((s.invoke (orchestrator config) token).2.deeds.drop s.deeds.length).filterMap
      Deed.displayed? = [trace] := by
    simp only [Orchestrator.State.invoke, List.drop_left, hd]
    rfl
  have hanswer : (s.invoke (orchestrator config) token).1 = .done := ha
  rw [showTrace, ht]
  simp only [hdeeds, hanswer, answerResult]
  simp [String.join]

-- The result with that number, if the results are counted from one.
def resultAt (c : Completion) (index : Nat) : Option Published :=
  if index = 0 then none else c.results[index - 1]?

theorem resultAt_eq_some_iff : resultAt c index = some p ↔ 1 ≤ index ∧ c.results[index - 1]? = some p := by
  unfold resultAt
  split <;> simp_all [Nat.one_le_iff_ne_zero]

-- What comes of asking for the trace of the result with that number: the result has one, and it is shown,
-- or nothing is printed.
inductive Shows (c : Completion) (index : Nat) : Result → Prop
  | shown {p : Published} {trace : Trace} (hp : resultAt c index = some p) (hs : p.token.isSome = true)
    (ht : p.record.trace = some (.displaying trace)) :
    Shows c index (.printed (p.record.check ++ ": " ++ p.record.message ++ "\n" ++ trace.display))
  | refused {failure : Failure} (hn : ∀ p, resultAt c index = some p → p.token = none) :
    Shows c index (.failed "" failure)

theorem shows_of_leaves (hl : s.Leaves (orchestrator config) s₁ text document c) (index : Nat) :
    Shows c index (match resultAt c index with
      | none => .failed "" (noRecord index c.results.length)
      | some p => showTrace config s p index) := by
  cases hr : resultAt c index with
  | none => exact .refused <| by simp [hr]
  | some p =>
    cases ht : p.token with
    | none =>
      simp only [showTrace_of_untraced ht]
      exact .refused <| by simp [hr, ht]
    | some token =>
      have hp : p ∈ c.results := List.mem_of_getElem? (resultAt_eq_some_iff.mp hr).right
      have ⟨a, ha, hf⟩ := hl.tokens p hp token ht
      have hm : p.record ∈ (orchestrator config).recordsFor text document :=
        hl.records ▸ List.mem_map_of_mem hp
      obtain ⟨trace, rfl⟩ := showsTrace_of_recordsFor hm a ha
      simp only [showTrace_of_traced ht hf]
      exact .shown hr (by simp [ht]) ha

theorem Shows.code_iff {result : Result} (h : Shows c index result) (stamp : Stamp) :
    (result.outcome stamp).code = 0 ↔ ∃ p, resultAt c index = some p ∧ p.token.isSome = true := by
  cases h with
  | shown hp hs ht => exact iff_of_true rfl ⟨_, hp, hs⟩
  | refused hn =>
    refine iff_of_false (by simp [Result.outcome, Outcome.failureCode]) ?_
    rintro ⟨p, hp, hs⟩
    simp [hn p hp] at hs

theorem records_of_resultAt (hp : resultAt c index = some p) : c.records[index - 1]? = some p.record := by
  simp [Completion.records, (resultAt_eq_some_iff.mp hp).right]

-- The results that have a token are those whose records have a trace.
theorem exists_resultAt_iff (ht : ∀ p ∈ c.results, p.token.isSome = p.record.hasTrace) :
    (∃ p, resultAt c index = some p ∧ p.token.isSome = true) ↔ 1 ≤ index ∧ index ≤ c.results.length ∧
      ∃ r, c.records[index - 1]? = some r ∧ r.hasTrace = true := by
  constructor
  case mp =>
    rintro ⟨p, hp, hs⟩
    have ⟨hi, hr⟩ := resultAt_eq_some_iff.mp hp
    have ⟨hlt, _⟩ := List.getElem?_eq_some_iff.mp hr
    exact ⟨hi, by omega, p.record, records_of_resultAt hp, ht p (List.mem_of_getElem? hr) ▸ hs⟩
  case mpr =>
    rintro ⟨hi, _, r, hr, hs⟩
    rw [Completion.records, List.getElem?_map] at hr
    have ⟨p, hp, he⟩ := Option.map_eq_some_iff.mp hr
    refine ⟨p, resultAt_eq_some_iff.mpr ⟨hi, hp⟩, ?_⟩
    rw [ht p <| List.mem_of_getElem? hp, he]
    exact hs

end Trace

-- What is written for a command.
def Command.outcome (files : Files) (config : Config) (stamp : Stamp) (command : Command) : Outcome :=
  (command.perform files config).outcome stamp

-- How the two commands agree about what a run has completed with.
structure Agree (files : Files) (config : Config) (model : String) (specification : Option String)
    (session : Session.State) (c : Completion) : Prop where
  reported : ∀ format, (Command.run model specification format).perform files config = .reported format c
  text     : ∀ stamp, (Command.run model specification .text |>.outcome files config stamp).output =
    c.heading stamp ++ String.join (c.results.mapIdx fun i p =>
      ordinal i ++ mark p.record.satisfied ++ " " ++ p.record.check ++ ": " ++ p.record.message ++ p.link ++
        "\n") ++ "\n" ++ c.verdict stamp
  passed   : ∀ format stamp, (Command.run model specification format |>.outcome files config stamp).code = 0 ↔
    ∀ r ∈ c.records, r.satisfied = true
  linked   : ∀ index stamp, (Command.trace model specification index |>.outcome files config stamp).code = 0 ↔
    1 ≤ index ∧ ∃ p, c.results[index - 1]? = some p ∧ p.link ≠ ""
  traced   : ∀ index stamp, (Command.trace model specification index |>.outcome files config stamp).code = 0 ↔
    1 ≤ index ∧ index ≤ c.results.length ∧ ∃ r, c.records[index - 1]? = some r ∧ r.hasTrace = true
  shown    : ∀ index stamp,
    (Command.trace model specification index |>.outcome files config stamp).code = 0 →
      ∃ r trace, c.records[index - 1]? = some r ∧ r.trace = some (.displaying trace) ∧
        (Command.trace model specification index |>.outcome files config stamp).output =
          r.check ++ ": " ++ r.message ++ "\n" ++ trace.display
  refused  : ∀ index stamp,
    (Command.trace model specification index |>.outcome files config stamp).code ≠ 0 →
      (Command.trace model specification index |>.outcome files config stamp).output = ""
  -- In whichever order the work and the reading are done, they come to what the commands go by.
  settled  : ∀ turns, (∀ turn ∈ turns, turn.Alone) → ∀ x,
    ((Awaited.begin session .button).takeAll (orchestrator config) turns).waiting = .ended x →
      (Awaited.begin session .button).takeAll (orchestrator config) turns = runOnce config session

section Agree

variable {c : Completion} {result : Result} {index : Nat} {format : Format} {stamp : Stamp}

theorem perform_run (h : openSession files config model specification = .ok session)
    (hw : (runOnce config session).waiting = .ended (some c)) (format : Format) :
    (Command.run model specification format).perform files config = .reported format c := by
  rw [Command.perform, h]
  simp only [Command.ofRun, hw]

theorem perform_trace (h : openSession files config model specification = .ok session)
    (hw : (runOnce config session).waiting = .ended (some c)) (index : Nat) :
    (Command.trace model specification index).perform files config = match resultAt c index with
      | none => .failed "" (noRecord index c.results.length)
      | some p => showTrace config (runOnce config session).state.orchestrator p index := by
  rw [Command.perform, h]
  simp only [Command.ofRun, hw]
  rfl

theorem code_reported_iff : ((Result.reported format c).outcome stamp).code = 0 ↔ c.overall = true := by
  cases h : c.overall <;> simp [Result.outcome, h, Outcome.failureCode]

theorem Shows.output_of_code (h : Shows c index result) (hc : (result.outcome stamp).code = 0) :
    ∃ r trace, c.records[index - 1]? = some r ∧ r.trace = some (.displaying trace) ∧
      (result.outcome stamp).output = r.check ++ ": " ++ r.message ++ "\n" ++ trace.display := by
  cases h with
  | shown hp _ ht => exact ⟨_, _, records_of_resultAt hp, ht, rfl⟩
  | refused => cases hc

theorem Shows.output_of_failed (h : Shows c index result) (hc : (result.outcome stamp).code ≠ 0) :
    (result.outcome stamp).output = "" := by
  cases h with
  | shown => exact absurd rfl hc
  | refused => rfl

end Agree

-- Whatever the model and the specification, as long as they can be read and there is room for the events.
theorem run_and_trace_agree (h : openSession files config model specification = .ok session) :
    ∃ c, Agree files config model specification session c := by
  have hi := initial_of_openSession h
  have ho : (orchestrator config).RunsPromptly := Orchestrator.runsPromptly_builtin rfl
  have hp : session.orchestrator.phase = .idle := by
    have ⟨_, he⟩ := Orchestrator.State.eq_of_initial hi
    rw [he]
  have hr : session.orchestrator = session.orchestrator.afterAll (orchestrator config) [] := rfl
  have hb := Awaited.begin_attends hi hr hp .button
  obtain ⟨c, hl, hw⟩ := hb.finish hi ho
  have hrun := perform_run h hw
  have hshows (index : Nat) :
      Shows c index ((Command.trace model specification index).perform files config) :=
    perform_trace h hw index ▸ shows_of_leaves hl index
  refine ⟨c, ?_⟩
  constructor
  case reported => exact hrun
  case text =>
    intro stamp
    rw [Command.outcome, hrun]
    exact c.renderText_eq stamp
  case passed =>
    intro format stamp
    rw [Command.outcome, hrun, code_reported_iff, hl.overall, Record.overall_iff]
  case linked =>
    intro index stamp
    rw [Command.outcome, (hshows index).code_iff]
    simp only [resultAt_eq_some_iff, Published.link_ne_iff, and_assoc, exists_and_left]
  case traced =>
    intro index stamp
    rw [Command.outcome, (hshows index).code_iff, exists_resultAt_iff hl.traces]
  case shown => exact fun index stamp hc => (hshows index).output_of_code hc
  case refused => exact fun index stamp hc => (hshows index).output_of_failed hc
  case settled => exact fun turns ht x hx => hb.eq_finish hi ho ht hx

-- The second result has no trace, as it is about a check that does not exist.
theorem run_and_trace_agree_on_dead_end :
    let model := "\x7b\"name\": \"m\", \"templates\": [\x7b\"name\": \"t\", \"init\": \"l\", " ++
      "\"locations\": [\"l\"]\x7d]\x7d"
    let specification := "\x7b\"checks\": [\x7b\"type\": \"deadlock-locations\"\x7d, " ++
      "\x7b\"type\": \"nonsense\"\x7d]\x7d"
    let files : Files := fun path => .ok <| if path = "m" then model else specification
    ∃ session c, openSession files {} "m" (some "s") = .ok session ∧
      Agree files {} "m" (some "s") session c ∧
      c.results.map (·.link) = [" (trace: trace-1)", ""] := by
  intro model specification files
  have ho : (openSession files {} "m" (some "s")).isOk = true := by decide +kernel
  have hl : (match (Command.run "m" (some "s") .text).perform files {} with
      | .reported _ c => c.results.map (·.link)
      | _ => []) = [" (trace: trace-1)", ""] := by decide +kernel
  cases h : openSession files {} "m" (some "s") with
  | error => simp [h, Except.isOk, Except.toBool] at ho
  | ok session =>
    obtain ⟨c, hc⟩ := run_and_trace_agree h
    rw [hc.reported] at hl
    exact ⟨session, c, rfl, hc, hl⟩

end CommandLine

end ModelAudit

import ModelAudit.Proofs.Orchestrator.Undisturbed

namespace ModelAudit.Orchestrator

-- The work is on its way to what it comes to when nobody asks it to stop, or it is bound to be cancelled.
inductive Task.Bound (o : Orchestrator) (signals : Signals) (text : String) (document : Document) (t : Task) :
    Prop
  | heads (h : t.stage.Heads o text document)
  | doomed (hr : signals.IsRaised t.signal) (hn : ∀ records, t.stage ≠ .settled (.finished records))

section Bound

variable {o : Orchestrator} {signals signals' : Signals} {text : String} {document : Document} {t : Task}
  {events : List RunEvent} {stage : Stage}

theorem Task.Bound.mono (h : t.Bound o signals text document)
    (hx : ∀ {x}, signals.IsRaised x → signals'.IsRaised x) : t.Bound o signals' text document := by
  cases h
  case heads h => exact .heads h
  case doomed hr hn => exact .doomed (hx hr) hn

-- Nothing passes the last look at a flag that is raised.
theorem Task.Goes.ne_settled (hg : t.Goes o signals events stage) (hr : signals.IsRaised t.signal)
    (records : List Record) : stage ≠ .settled (.finished records) := by
  cases hg
  case press => nofun
  case move hm =>
    cases hm
    case approve hn => exact absurd hr hn
    all_goals nofun

theorem Task.Goes.bound (ho : o.RunsPromptly) (hg : t.Goes o signals events stage)
    (h : t.Bound o signals text document) (hs : t.spec = CheckSet.parse text) (hd : t.document = document) :
    { t with stage := stage }.Bound o signals text document := by
  by_cases hr : signals.IsRaised t.signal
  case pos => exact .doomed hr <| hg.ne_settled hr
  case neg =>
    cases h
    case heads hh => exact .heads <| hg.heads ho hh hs hd hr
    case doomed hr' _ => exact absurd hr' hr

end Bound

-- A signal that was raised stays so.
theorem Lifecycle.Effect.isRaised {l l' : Lifecycle} {facts : List Incident} {x : Signal}
    (h : l.Effect facts l') (hx : l.signals.IsRaised x) : l'.signals.IsRaised x := by
  cases h with
  | request _ _ _ hs => exact hs ▸ Signals.isRaised_raise.mpr (.inr hx)
  | launch => exact hx
  | abandon => exact isRaised_raiseActive hx
  | calm _ _ hs => exact hs ▸ hx

namespace State

-- The run was launched in the course of the history.
def Launched (o : Orchestrator) (s₀ : State) (history : List Happening) (run : RunId) (text : String)
    (document : Document) : Prop :=
  ∃ before since, history = before ++ .start text document :: since ∧
    ((s₀.afterAll o before).start text document).1 = .started run

-- The completion has what the run comes to when nobody asks it to stop.
structure Fulfils (o : Orchestrator) (text : String) (document : Document) (c : Completion) : Prop where
  digest  : c.digest = (CheckSet.parse text).toOption.map CheckSet.digest
  records : c.records = o.recordsFor text document

-- The work is that of a run which was launched in the course of the history.
structure Stems (o : Orchestrator) (s₀ : State) (history : List Happening) (t : Task) (text : String)
    (document : Document) : Prop where
  launched : s₀.Launched o history t.run text document
  carries  : t.Carries t.run text
  model    : t.document = document
  bound    : t.Bound o (s₀.afterAll o history).signals text document

-- What is in flight, and what was told, stems from launches.
structure Rooted (o : Orchestrator) (s₀ : State) (history : List Happening) : Prop where
  tasks : ∀ t ∈ (s₀.afterAll o history).tasks, ∃ text document, s₀.Stems o history t text document
  told  : ∀ c, .completed c ∈ (s₀.afterAll o history).channel.sent →
    ∃ text document, s₀.Launched o history c.run text document ∧ Fulfils o text document c

variable {o : Orchestrator} {s₀ s' : State} {history : List Happening} {h : Happening} {t : Task} {text : String}
  {document : Document} {run : RunId}

theorem Launched.concat (hl : s₀.Launched o history run text document) (h : Happening) :
    s₀.Launched o (history ++ [h]) run text document := by
  obtain ⟨before, since, rfl, hs⟩ := hl
  exact ⟨before, since ++ [h], by simp, hs⟩

theorem isRaised_concat (hi : o.initial = .ok s₀) {x : Signal}
    (hx : (s₀.afterAll o history).signals.IsRaised x) :
    (s₀.afterAll o (history ++ [h])).signals.IsRaised x := by
  rw [afterAll_concat]
  exact (after_step o _ h).effect (coherent_of_initial hi history) |>.isRaised hx

theorem Stems.concat (hi : o.initial = .ok s₀) (hs : s₀.Stems o history t text document) (h : Happening) :
    s₀.Stems o (history ++ [h]) t text document where
  launched := hs.launched.concat h
  carries  := hs.carries
  model    := hs.model
  bound    := hs.bound.mono (isRaised_concat hi)

theorem Rooted.turn (ho : o.RunsPromptly) (hi : o.initial = .ok s₀) (hr : s₀.Rooted o history)
    (ht : (s₀.afterAll o history).Turn o h (s₀.afterAll o (history ++ [h]))) :
    s₀.Rooted o (history ++ [h]) := by
  have hc := coherent_of_initial hi history
  have hold {c} (hm : .completed c ∈ (s₀.afterAll o history).channel.sent) :
      ∃ text document, s₀.Launched o (history ++ [h]) c.run text document ∧ Fulfils o text document c :=
    have ⟨_, _, hl, hf⟩ := hr.told c hm
    ⟨_, _, hl.concat h, hf⟩
  generalize hs' : s₀.afterAll o (history ++ [h]) = s' at ht
  constructor
  case tasks =>
    rw [hs']
    cases ht with
    | aside _ htt =>
      intro t hm
      have ⟨_, _, hs⟩ := hr.tasks t (htt ▸ hm)
      exact ⟨_, _, hs.concat hi h⟩
    | @launch text document _ hl =>
      rw [hl.tasks', List.forall_mem_singleton]
      refine ⟨text, document, ⟨history, [], rfl, ?_⟩, ⟨rfl, rfl, rfl⟩, rfl, .heads .launched⟩
      exact started_of_idle hl.idle text document
    | @go t _ _ _ _ htt _ hg htt' =>
      rw [htt', List.forall_mem_singleton]
      have ⟨text, document, hs⟩ := hr.tasks t <| by simp [htt]
      have hb := hg.bound ho hs.bound hs.carries.spec hs.model
      exact ⟨text, document, hs.launched.concat _, ⟨rfl, hs.carries.spec, hs.carries.digest⟩, hs.model,
        hb.mono (isRaised_concat hi)⟩
    | close htt _ hg =>
      rw [tasks_finish hg htt]
      exact List.forall_mem_nil _
  case told =>
    rw [hs']
    intro c hm
    cases ht with
    | aside _ _ hs => exact hold <| hs ▸ hm
    | launch hl =>
      rw [hl.sent] at hm
      exact hold <| by simpa using hm
    | go _ _ hg _ hs =>
      rw [hs] at hm
      rcases List.mem_append.mp hm with hm | hm
      · exact hold hm
      · exact absurd (hg.closing?_eq_none _ hm) nofun
    | @close t outcome visits htt hstage hg =>
      cases outcome
      case cancelled =>
        rw [sent_finish_cancelled hg] at hm
        exact hold <| by simpa using hm
      case finished records =>
        have ⟨c', hcc, hsent⟩ := sent_finish_finished (o := o) hg visits records
        rw [hsent] at hm
        rcases List.mem_append.mp hm with hm | hm
        · exact hold hm
        · obtain rfl : c = c' := by simpa using hm
          have ⟨text, document, hs⟩ := hr.tasks t <| by simp [htt]
          refine ⟨text, document, ?_, hcc.digest.trans hs.carries.digest, ?_⟩
          · rw [hcc.run]
            exact hs.launched.concat _
          · cases hs.bound
            case heads hh =>
              rw [hcc.records]
              exact Outcome.finished.inj <| hh.records <| .inr hstage
            case doomed hn => exact absurd hstage <| hn records

theorem rooted_of_initial (ho : o.RunsPromptly) (h : o.initial = .ok s₀) (history : List Happening) :
    s₀.Rooted o history := by
  refine turn_induction h [] (motive := s₀.Rooted o) ?_ (fun hr ht => hr.turn ho h ht) history
  obtain ⟨capacity, rfl⟩ := eq_of_initial h
  exact ⟨List.forall_mem_nil _, fun _ => by simp [afterAll]⟩

end State

end ModelAudit.Orchestrator

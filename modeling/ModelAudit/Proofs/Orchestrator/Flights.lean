import ModelAudit.Proofs.Orchestrator.Undisturbed

namespace ModelAudit

namespace Orchestrator

-- All that is told of the work of a run names that run.
theorem Task.Goes.run_of_mem {o : Orchestrator} {signals : Signals} {t : Task} {events : List RunEvent}
    {stage : Stage} (h : t.Goes o signals events stage) : ∀ event ∈ events, event.run = t.run := by
  intro event he
  cases h
  case press => cases he
  case move h =>
    cases h
    case deliver => rw [List.mem_singleton.mp he]; rfl
    all_goals cases he

namespace State

-- The run is in flight, and from some place on nothing was told that closes a run.
structure Aloft (s : State) (n : Nat) (run : RunId) : Prop where
  tasks : ∃ t, s.tasks = [t] ∧ t.run = run
  start : n ≤ s.channel.sent.length
  quiet : ∀ event ∈ s.channel.sent.drop n, event.closing? = none

-- The run is over. From some place on, the first event that closes a run is about this one, and all that
-- was told later is about later runs.
structure Landed (s : State) (n : Nat) (run : RunId) (told : List RunEvent) (event : RunEvent)
    (later : List RunEvent) : Prop where
  ended   : s.lifecycle.Over run
  sent    : s.channel.sent = told ++ event :: later
  start   : n ≤ told.length
  quiet   : ∀ event ∈ told.drop n, event.closing? = none
  own     : event.run = run
  closing : ∃ closing, event.closing? = some closing
  later   : ∀ event ∈ later, run.number < event.run.number ∧ event.run.number ≤ s.launches

variable {o : Orchestrator} {s s' s₀ : State} {n : Nat} {run : RunId} {h : Happening}
  {told later : List RunEvent} {event : RunEvent} {facts : List Incident}

theorem aloft_of_launches {text : String} {document : Document} (hl : s.Launches text document s') :
    s'.Aloft s.channel.sent.length ⟨s.launches + 1⟩ where
  tasks := ⟨_, hl.tasks', rfl⟩
  start := by simp [hl.sent]
  quiet := by simp [hl.sent, RunEvent.closing?]

-- The last step of a run closes it.
theorem exists_closing_of_finish {t : Task} (hg : s.generation = t.generation) (visits : Visits)
    (outcome : Outcome) : ∃ event closing, event.run = t.run ∧ event.closing? = some closing ∧
      (s.finish o visits t outcome).channel.sent = s.channel.sent ++ [event] := by
  cases outcome
  case cancelled => exact ⟨_, _, rfl, rfl, sent_finish_cancelled hg⟩
  case finished records =>
    have ⟨c, hc, hs⟩ := sent_finish_finished (o := o) hg visits records
    exact ⟨.completed c, _, hc.run, rfl, hs⟩

theorem Aloft.turn (ha : s.Aloft n run) (hc : s.lifecycle.Coherent facts) (ht : s.Turn o h s') :
    s'.Aloft n run ∨ ∃ event, s'.Landed n run s.channel.sent event [] := by
  obtain ⟨⟨t, htasks, rfl⟩, hstart, hquiet⟩ := ha
  cases ht with
  | aside _ ht hs => exact .inl ⟨⟨t, ht.trans htasks, rfl⟩, hs ▸ hstart, hs ▸ hquiet⟩
  | launch hl => simp [hl.tasks] at htasks
  | @go t' events stage _ _ ht _ hg ht' hs =>
    obtain rfl : t' = t := by simpa [htasks] using ht.symm
    refine .inl ⟨⟨_, ht', rfl⟩, ?_, ?_⟩
    · rw [hs, List.length_append]
      exact Nat.le_add_right_of_le hstart
    · rw [hs, List.drop_append_of_le_length hstart]
      exact List.forall_mem_append.mpr ⟨hquiet, hg.closing?_eq_none⟩
  | @close t' outcome visits ht _ hg =>
    obtain rfl : t' = t := by simpa [htasks] using ht.symm
    have ⟨event, closing, hr, hclosing, hs⟩ := exists_closing_of_finish (o := o) hg visits outcome
    exact .inr ⟨event, over_finish hc ht hg, hs, hstart, hquiet, hr, ⟨closing, hclosing⟩, by simp⟩

-- A run that is in flight when another one is over is a later one.
theorem lt_number_of_over {t : Task} (ho : s.lifecycle.Over run) (hc : s.lifecycle.Coherent facts)
    (ht : t ∈ s.tasks) : run.number < t.run.number ∧ t.run.number ≤ s.launches := by
  have hr := run_of_mem_tasks hc ht
  have hn : t.run ≠ run := ho.gone t ht
  have hle : run.number ≤ s.launches := ho.launched
  obtain ⟨number⟩ := run
  rw [hr] at hn ⊢
  exact ⟨Nat.lt_of_le_of_ne hle fun he => hn <| congrArg RunId.mk he.symm, Nat.le_refl _⟩

theorem Landed.append {more : List RunEvent} (hl : s.Landed n run told event later)
    (ho : s'.lifecycle.Over run) (hs : s'.channel.sent = s.channel.sent ++ more)
    (hle : s.launches ≤ s'.launches)
    (hm : ∀ event ∈ more, run.number < event.run.number ∧ event.run.number ≤ s'.launches) :
    s'.Landed n run told event (later ++ more) where
  ended   := ho
  sent    := by rw [hs, hl.sent, List.append_assoc, List.cons_append]
  start   := hl.start
  quiet   := hl.quiet
  own     := hl.own
  closing := hl.closing
  later   := List.forall_mem_append.mpr
    ⟨fun event he => (hl.later event he).imp_right fun h => Nat.le_trans h hle, hm⟩

theorem Landed.turn (hl : s.Landed n run told event later) (hc : s.lifecycle.Coherent facts)
    (ht : s.Turn o h s') : ∃ more, s'.Landed n run told event (later ++ more) := by
  have ho := ht.over hl.ended
  have hle := ht.launches_le
  cases ht with
  | aside _ _ hs => exact ⟨[], hl.append ho (by simp [hs]) hle (by simp)⟩
  | launch hl' =>
    refine ⟨_, hl.append ho hl'.sent hle ?_⟩
    rw [List.forall_mem_singleton, hl'.launches]
    exact ⟨Nat.lt_succ_of_le hl.ended.launched, Nat.le_refl _⟩
  | @go t events _ _ _ ht _ hg _ hs =>
    refine ⟨events, hl.append ho hs hle fun event he => ?_⟩
    rw [hg.run_of_mem event he]
    have ⟨hlt, hle'⟩ := lt_number_of_over hl.ended hc (t := t) <| by simp [ht]
    exact ⟨hlt, Nat.le_trans hle' hle⟩
  | @close t outcome visits ht _ hg =>
    have ⟨event, _, hr, _, hs⟩ := exists_closing_of_finish (o := o) hg visits outcome
    refine ⟨[event], hl.append ho hs hle ?_⟩
    rw [List.forall_mem_singleton, hr]
    have ⟨hlt, hle'⟩ := lt_number_of_over hl.ended hc (t := t) <| by simp [ht]
    exact ⟨hlt, Nat.le_trans hle' hle⟩

theorem Landed.mem_later_of_getElem? (hl : s.Landed n run told event later) {p : Nat} {other : RunEvent}
    (hp : told.length < p) (he : s.channel.sent[p]? = some other) : other ∈ later := by
  obtain ⟨k, rfl⟩ := Nat.exists_eq_add_of_lt hp
  rw [hl.sent, List.getElem?_append_right <| Nat.le_of_lt hp] at he
  refine List.mem_of_getElem? (i := k) ?_
  rw [← he]
  simp [Nat.add_assoc]

-- As long as no other run was launched nothing was told of one.
theorem Landed.later_eq_nil (hl : s.Landed n run told event later) (hs : s.launches = run.number) :
    later = [] := by
  refine List.eq_nil_iff_forall_not_mem.mpr fun event he => ?_
  have ⟨hlt, hle⟩ := hl.later event he
  omega

-- Only the button launches a run, and only if none is active.
theorem Turn.launches_eq (ht : s.Turn o h s')
    (hn : ∀ text document, h = .start text document → s.phase ≠ .idle) : s'.launches = s.launches := by
  cases ht with
  | aside _ _ _ hl => exact hl
  | launch hl => exact absurd hl.idle <| hn _ _ rfl
  | go _ _ _ _ _ hl => exact hl
  | close _ _ hg => exact launches_finish hg

end State

-- The runner does not stand at a gate, and will not.
def Task.Ungated (t : Task) : Prop :=
  ∀ work records, t.stage = .checking work records →
    (∃ n, Activity.Prompt (· = .ok ()) n work) ∨ work = .done (.error .cancelled)

section Ungated

variable {o : Orchestrator} {signals : Signals} {t : Task} {events : List RunEvent} {stage : Stage}

theorem Task.Goes.ungated (ho : o.RunsPromptly) (hg : t.Goes o signals events stage) (hu : t.Ungated) :
    { t with stage := stage }.Ungated := by
  have prompt {work records} (hs : t.stage = .checking work records)
      (hn : work ≠ .done (.error .cancelled)) : ∃ n, Activity.Prompt (· = .ok ()) n work :=
    (hu work records hs).resolve_right hn
  intro work records hs
  cases hg with
  | press hp =>
    obtain ⟨_, hw⟩ := prompt hp nofun
    cases hw
  | move hm =>
    cases hm with
    | enter => cases hs; exact .inl <| ho ..
    | poll hp =>
      cases hs
      obtain ⟨n, hw⟩ := prompt hp nofun
      cases hw with
      | poll ht hf =>
        cases decide (signals.IsRaised t.signal)
        case false => exact .inl ⟨n, hf⟩
        case true => exact .inr ht
    | emit hp =>
      cases hs
      obtain ⟨n, hw⟩ := prompt hp nofun
      cases hw with
      | emit hw => exact .inl ⟨n, hw⟩
    | deliver hp =>
      cases hs
      obtain ⟨_, hw⟩ := prompt hp nofun
      cases hw with
      | deliver hw => exact .inl ⟨_, hw⟩
    | pass hp | stop hp =>
      obtain ⟨_, hw⟩ := prompt hp nofun
      cases hw
    | _ => cases hs

namespace State

variable {s s' s₀ : State} {run : RunId} {h : Happening}

theorem Turn.ungated (ho : o.RunsPromptly) (ht : s.Turn o h s') (hu : ∀ t ∈ s.tasks, t.Ungated) :
    ∀ t ∈ s'.tasks, t.Ungated := by
  cases ht with
  | aside _ ht => exact ht ▸ hu
  | launch hl =>
    rw [hl.tasks', List.forall_mem_singleton]
    exact fun _ _ hs => by cases hs
  | go ht _ hg ht' =>
    rw [ht', List.forall_mem_singleton]
    exact hg.ungated ho <| hu _ <| by simp [ht]
  | close ht _ hg =>
    rw [tasks_finish hg ht]
    exact List.forall_mem_nil _

theorem ungated_of_initial (h : o.initial = .ok s₀) (ho : o.RunsPromptly) (history : List Happening) :
    ∀ t ∈ (s₀.afterAll o history).tasks, t.Ungated := by
  refine turn_induction h [] (motive := fun history => ∀ t ∈ (s₀.afterAll o history).tasks, t.Ungated)
    ?_ (fun hu ht => ht.ungated ho hu) history
  obtain ⟨_, rfl⟩ := eq_of_initial h
  exact List.forall_mem_nil _

theorem not_waits_of_ungated (hu : ∀ t ∈ s.tasks, t.Ungated) : ¬s.Waits run := by
  rintro ⟨t, heedsFlag, passed, stopped, records, ht, hs, _⟩
  rcases hu t (List.mem_of_find?_eq_some ht) _ _ hs with ⟨_, hw⟩ | hw
  · cases hw
  · cases hw

end State

end Ungated

end Orchestrator

end ModelAudit

import ModelAudit.Orchestrator.Join
import ModelAudit.Proofs.Orchestrator.Containment

namespace ModelAudit.Orchestrator

namespace State

-- Receivers were told how the run has ended, and it is not the active one any more.
structure Processed (s : State) (run : RunId) : Prop where
  told     : (∃ c, .completed c ∈ s.channel.sent ∧ c.run = run) ∨ .cancelled run ∈ s.channel.sent
  inactive : ∀ a, s.active = some a → a.run ≠ run

-- What a happening does to the place in which calls to join look for a run.
inductive Handover (s : State) : Happening → State → Prop
  | keep {h s'} (hh : s'.handle = s.handle) (hl : s'.launches = s.launches) : s.Handover h s'
  | launch {h s'} (hh : s'.handle = some ⟨s'.launches⟩) : s.Handover h s'
  | take {s'} (hh : s'.handle = none) (hl : s'.launches = s.launches) : s.Handover .takeHandle s'

variable {o : Orchestrator} {s s' s₀ : State} {t : Task} {h : Happening} {visits : Visits}
  {run : RunId}

section Handover

theorem start_handover (h : Happening) (s : State) (text : String) (document : Document) :
    s.Handover h (s.start text document).2 := by
  cases hp : s.phase <;> rw [start, hp]
  case idle => exact .launch rfl
  case running => exact .keep rfl rfl
  case cancelling => exact .keep rfl rfl

theorem work_handover {work : Activity (Except AuditError Unit)} {records : List Record}
    (hw : s.work? t records work = some s') : s.Handover h s' := by
  cases work <;> simp only [work?] at hw
  case done result => rcases result with e | _ <;> (try cases e) <;> cases hw <;> exact .keep rfl rfl
  case press next =>
    cases hw
    cases (s.toStage t.run (.checking next records)).start_handover h "" { name := "toggle" } with
    | keep hh hl => exact .keep hh hl
    | launch hh => exact .launch hh
    | take hh hl => exact .take hh hl
  case gate =>
    split at hw
    · cases hw; exact .keep rfl rfl
    · split at hw <;> cases hw
      exact .keep rfl rfl
  all_goals cases hw; exact .keep rfl rfl

theorem task_handover (hs : s.step? o visits t = some s') : s.Handover h s' := by
  cases ht : t.stage <;> simp only [step?, ht] at hs
  case checking => exact work_handover hs
  case cleared => cases hspec : t.spec <;> rw [hspec] at hs <;> cases hs <;> exact .keep rfl rfl
  case settled outcome =>
    cases hs
    rw [finish]
    split
    · cases outcome <;> exact .keep rfl rfl
    · exact .keep rfl rfl
  all_goals cases hs; exact .keep rfl rfl

theorem after_handover (o : Orchestrator) (s : State) (h : Happening) : s.Handover h (s.after o h) := by
  cases h
  case start text document => exact s.start_handover _ text document
  case work run visits =>
    simp only [after, advance?]
    cases ht : s.task? run
    case none => exact .keep rfl rfl
    case some t =>
      simp only [Option.bind_some]
      cases hs : s.step? o visits t
      case none => exact .keep rfl rfl
      case some => exact task_handover hs
  case takeHandle => exact .take rfl rfl
  case abandon =>
    rw [after, abandon]
    split <;> exact .keep rfl rfl
  all_goals exact .keep rfl rfl

end Handover

-- The run that is found in that place was launched last, and receivers were told of the others.
structure Attended (s : State) : Prop where
  newest : ∀ run, s.handle = some run → run = ⟨s.launches⟩
  told   : ∀ run : RunId, 0 < run.number → s.lifecycle.Over run →
    (∃ c, .completed c ∈ s.channel.sent ∧ c.run = run) ∨ .cancelled run ∈ s.channel.sent

theorem Attended.newest_after (ha : s.Attended) (hh : s.Handover h s') :
    ∀ run, s'.handle = some run → run = ⟨s'.launches⟩ := by
  intro run hr
  cases hh with
  | keep hh hl => exact hl ▸ ha.newest run (hh ▸ hr)
  | launch hh => exact (Option.some.inj <| hh.symm.trans hr).symm
  | take hh => cases hh.symm.trans hr

-- A run whose work is done in this step is told of in this step.
theorem Turn.told (ht : s.Turn o h s') (hr : s'.lifecycle.Over run) :
    s.lifecycle.Over run ∨
      (∃ c, .completed c ∈ s'.channel.sent ∧ c.run = run) ∨ .cancelled run ∈ s'.channel.sent := by
  have ⟨hl, hg⟩ : run.number ≤ s'.launches ∧ ∀ t ∈ s'.tasks, t.run ≠ run := ⟨hr.launched, hr.gone⟩
  have overBefore (hl : run.number ≤ s.launches) (hg : ∀ t ∈ s.tasks, t.run ≠ run) : s.lifecycle.Over run :=
    ⟨hl, hg⟩
  cases ht with
  | aside _ ht _ hl' => exact .inl <| overBefore (hl' ▸ hl) (ht ▸ hg)
  | @launch text document _ hl' =>
    have hn : (⟨s.launches + 1⟩ : RunId) ≠ run := hg (s.lifecycle.nextTask text document) <| by
      simp [hl'.tasks']
    have hne : run.number ≠ s.launches + 1 := fun he => hn <| by rw [← he]
    have hl := hl'.launches ▸ hl
    exact .inl <| overBefore (by omega) <| by simp [hl'.tasks]
  | go ht _ _ ht' _ hl' =>
    refine .inl <| overBefore (hl' ▸ hl) ?_
    rw [ht, List.forall_mem_singleton]
    rwa [ht', List.forall_mem_singleton] at hg
  | @close t outcome visits ht hs hg' =>
    by_cases he : t.run = run
    case neg =>
      refine .inl <| overBefore (launches_finish hg' ▸ hl) ?_
      rwa [ht, List.forall_mem_singleton]
    case pos =>
      subst he
      refine .inr ?_
      cases outcome
      case cancelled => exact .inr <| sent_finish_cancelled hg' ▸ by simp
      case finished records =>
        obtain ⟨c, hc, hs'⟩ := sent_finish_finished (o := o) hg' visits records
        exact .inl ⟨c, hs' ▸ by simp, hc.run⟩

theorem attended (h : o.initial = .ok s₀) (history : List Happening) :
    (s₀.afterAll o history).Attended := by
  induction history using List.reverseRecOn
  case nil =>
    have ⟨_, hs⟩ := eq_of_initial h
    subst hs
    refine ⟨nofun, fun run hp ho => ?_⟩
    exact absurd ho.launched <| Nat.not_le_of_lt hp
  case append_singleton history h' hi =>
    have ht := after_turn (o := o) (coherent_of_initial h history) h'
    rw [afterAll_concat]
    refine ⟨hi.newest_after <| after_handover .., fun run hp ho => ?_⟩
    refine (ht.told ho).elim (fun ho => ?_) id
    refine (hi.told run hp ho).imp ?_ fun hm => ht.sent_extends.subset hm
    exact fun ⟨c, hm, hc⟩ => ⟨c, ht.sent_extends.subset hm, hc⟩

variable {facts facts' : List Incident}

theorem Attended.processed (ha : s.Attended) (hc : s.lifecycle.Coherent facts) (hp : 0 < run.number)
    (ho : s.lifecycle.Over run) : s.Processed run where
  told     := ha.told run hp ho
  inactive := fun a ha' he => by
    have ha' : s.lifecycle.active = some a := ha'
    have hn : s.lifecycle.phase ≠ .idle := by simp [hc.flight.phase_idle_iff, ha']
    obtain ⟨a', t, hs, ht, hw⟩ := hc.flight.airborne_of_ne_idle hn
    obtain rfl : a = a' := Option.some.inj <| ha'.symm.trans hs
    exact ho.gone t (ht ▸ List.mem_singleton_self t) <| hw.run.trans he

-- The run in flight is the active one.
theorem not_processed (hc : s.lifecycle.Coherent facts) (ht : (s.task? run).isSome) :
    ¬s.Processed run := by
  intro hp
  obtain ⟨t, ht⟩ := Option.isSome_iff_exists.mp ht
  obtain ⟨_, a, ha, _, hw⟩ := hc.flight.airborne_of_task? ht
  exact hp.inactive a ha <| hw.run.symm.trans <| run_of_task? ht

theorem newest_of_task? (hc : s.lifecycle.Coherent facts) (ht : (s.task? run).isSome) :
    run = ⟨s.launches⟩ := by
  obtain ⟨t, ht⟩ := Option.isSome_iff_exists.mp ht
  exact run_of_task? ht ▸ run_of_mem_tasks hc (List.mem_of_find?_eq_some ht)

theorem over_of_task? (hl : run.number ≤ s.launches) (ht : ¬(s.task? run).isSome) :
    s.lifecycle.Over run where
  launched := hl
  gone     := fun t hm he => ht <| List.find?_isSome.mpr ⟨t, hm, by simp [he]⟩

theorem not_over_of_task? (ht : (s.task? run).isSome) : ¬s.lifecycle.Over run := by
  obtain ⟨t, ht⟩ := Option.isSome_iff_exists.mp ht
  exact fun ho => ho.gone t (List.mem_of_find?_eq_some ht) <| run_of_task? ht

-- A run in flight that is not to be found was not to be found before, or it has just been taken.
theorem Attended.taken (ha : s.Attended) (hc : s.lifecycle.Coherent facts)
    (hc' : (s.after o h).lifecycle.Coherent facts') (hh : (s.after o h).handle = none)
    (ht : ((s.after o h).task? run).isSome) :
    (s.handle = none ∧ (s.task? run).isSome) ∨ (s.handle = some run ∧ h = .takeHandle) := by
  have hr := newest_of_task? hc' ht
  have flight (hl : (s.after o h).launches = s.launches) : (s.task? run).isSome := by
    by_contra hn
    refine not_over_of_task? ht <| (after_turn hc h).over <| over_of_task? ?_ hn
    exact hr ▸ Nat.le_of_eq hl
  cases after_handover o s h with
  | keep hh' hl => exact .inl ⟨hh'.symm.trans hh, flight hl⟩
  | launch hh' => cases hh'.symm.trans hh
  | take _ hl =>
    cases hs : s.handle
    case none => exact .inl ⟨rfl, flight hl⟩
    case some later => exact .inr ⟨by rw [ha.newest later hs, hr, hl], rfl⟩

end State

namespace Lobby

variable {o : Orchestrator} {l : Lobby} {h : Happening} {i j : Nat} {run : RunId} {call : JoinCall}

theorem afterAll_append (o : Orchestrator) (l : Lobby) (history more : List Happening) :
    l.afterAll o (history ++ more) = (l.afterAll o history).afterAll o more :=
  List.foldl_append

theorem afterAll_concat (o : Orchestrator) (l : Lobby) (history : List Happening) (h : Happening) :
    l.afterAll o (history ++ [h]) = (l.afterAll o history).after o h :=
  l.afterAll_append o history [h]

-- What a happening is for the orchestrator, if it concerns that at all.
def below? (l : Lobby) : Happening → Option Orchestrator.Happening
  | .join => none
  | .joinStep i => if l.calls[i]? = some .begun then some .takeHandle else none
  | .orchestrator h => some h

theorem state_after (o : Orchestrator) (l : Lobby) (h : Happening) :
    (l.after o h).state = ((l.below? h).map (l.state.after o)).getD l.state := by
  cases h
  case joinStep i =>
    simp only [after, joinStep, below?]
    split
    case h_1 hc => simp [hc]
    case h_2 call hc => cases call <;> simp [hc, State.joinStep, State.after]
  all_goals rfl

theorem exists_history (o : Orchestrator) (l : Lobby) (history : List Happening) :
    ∃ below, (l.afterAll o history).state = l.state.afterAll o below := by
  induction history using List.reverseRecOn
  case nil => exact ⟨[], rfl⟩
  case append_singleton history h hi =>
    obtain ⟨below, hi⟩ := hi
    rw [afterAll_concat, state_after, hi]
    cases (l.afterAll o history).below? h
    case none => exact ⟨below, rfl⟩
    case some h' => exact ⟨below ++ [h'], (State.afterAll_concat ..).symm⟩

-- A call is one from before that has not gone on, or it has just begun, or it has just gone on.
theorem calls_after (hc : (l.after o h).calls[i]? = some call) :
    (l.calls[i]? = some call ∧ h ≠ .joinStep i) ∨ (h = .join ∧ i = l.calls.length ∧ call = .begun) ∨
      h = .joinStep i ∧ ∃ call', l.calls[i]? = some call' ∧ call = (l.state.joinStep call').1 := by
  cases h
  case join =>
    have hc : (l.calls ++ [.begun])[i]? = some call := hc
    rw [List.getElem?_append] at hc
    split at hc
    · exact .inl ⟨hc, nofun⟩
    · obtain ⟨hi, he⟩ := List.getElem?_eq_some_iff.mp hc
      simp at hi he
      exact .inr <| .inl ⟨rfl, by omega, he.symm⟩
  case joinStep j =>
    simp only [after, joinStep] at hc
    split at hc
    case h_1 hj => exact .inl ⟨hc, by rintro ⟨⟩; cases hj.symm.trans hc⟩
    case h_2 call' hj =>
      rw [List.getElem?_set] at hc
      split_ifs at hc with he
      · subst he
        exact .inr <| .inr ⟨rfl, call', hj, (Option.some.inj hc).symm⟩
      · exact .inl ⟨hc, fun he' => he <| Happening.joinStep.inj he'⟩
  case orchestrator => exact .inl ⟨hc, nofun⟩

-- The call is about to look for a run, and there is none to be found although this one is in flight.
structure Misses (l : Lobby) (i : Nat) (run : RunId) : Prop where
  begun  : l.calls[i]? = some .begun
  empty  : l.state.handle = none
  flight : (l.state.task? run).isSome

-- What happens takes the run that is to be found.
structure Takes (l : Lobby) (run : RunId) (h : Happening) : Prop where
  found : l.state.handle = some run
  taken : l.below? h = some .takeHandle

theorem Takes.index_lt (ht : l.Takes run (.joinStep i)) : i < l.calls.length := by
  have hb := ht.taken
  rw [below?, ite_eq_left_iff] at hb
  by_contra hn
  refine absurd (hb ?_) nofun
  simp [Nat.le_of_not_lt hn]

-- A call that looks in vain does not wait.
theorem Misses.joinStep (hm : l.Misses i run) : (l.after o (.joinStep i)).calls[i]? = some .returned ∧
    ((l.after o (.joinStep i)).state.task? run).isSome := by
  have hs := hm.flight
  have hi := (List.getElem?_eq_some_iff.mp hm.begun).1
  simp only [after, Lobby.joinStep, hm.begun, State.joinStep, State.takeHandle, hm.empty]
  exact ⟨by simp [hi], hs⟩

-- How far a call that began after the launch of a run has come with waiting for that run.
inductive Awaits (s : State) (run : RunId) : JoinCall → Prop
  | begun : Awaits s run .begun
  -- The run that the call waits for was not launched before.
  | waiting {later} (hl : run.number ≤ later.number) (hs : later.number ≤ s.launches) :
    Awaits s run (.waiting later)
  | returned (h : s.lifecycle.Over run) : Awaits s run .returned

section Awaits

variable {s s' : State} {facts : List Incident}

theorem Awaits.mono (ha : Awaits s run call) (hl : s.launches ≤ s'.launches)
    (ho : s.lifecycle.Over run → s'.lifecycle.Over run) : Awaits s' run call := by
  cases ha with
  | begun => exact .begun
  | waiting h hs => exact .waiting h <| hs.trans hl
  | returned h => exact .returned <| ho h

-- A call that does not look in vain takes the run that was launched last. It waits until that run is
-- done, and the runs before are done as well then.
theorem Awaits.joinStep (ha : Awaits s run call) (hs : s.Attended) (hc : s.lifecycle.Coherent facts)
    (hl : run.number ≤ s.launches)
    (hm : call = .begun → s.handle = none → ¬(s.task? run).isSome) :
    Awaits s run (s.joinStep call).1 := by
  cases ha with
  | begun =>
    cases hh : s.handle
    case none =>
      simp only [State.joinStep, State.takeHandle, hh]
      exact .returned <| State.over_of_task? hl <| hm rfl hh
    case some later =>
      simp only [State.joinStep, State.takeHandle, hh]
      obtain rfl := hs.newest later hh
      exact .waiting hl <| Nat.le_refl _
  | @waiting later hr hlater =>
    simp only [State.joinStep]
    split
    case isTrue => exact .waiting hr hlater
    case isFalse hn =>
      refine .returned <| State.over_of_task? hl fun ht => ?_
      -- Were the run in flight still, it would be the one that the call waits for.
      have he := State.newest_of_task? hc ht
      have he : later = run := by
        cases later
        subst he
        exact congrArg RunId.mk <| Nat.le_antisymm hlater hr
      exact hn <| he ▸ ht
  | returned h => exact .returned h

end Awaits

theorem joinStep_ne_begun (s : State) (call : JoinCall) : (s.joinStep call).1 ≠ .begun := by
  cases call <;> simp only [State.joinStep]
  case begun => split <;> rintro ⟨⟩
  case waiting => split <;> rintro ⟨⟩
  case returned => rintro ⟨⟩

theorem length_calls_le (o : Orchestrator) (l : Lobby) (history : List Happening) :
    l.calls.length ≤ (l.afterAll o history).calls.length := by
  induction history using List.reverseRecOn
  case nil => exact Nat.le_refl _
  case append_singleton history h hi =>
    rw [afterAll_concat]
    cases h
    case join => exact hi.trans <| by simp [after]
    case joinStep j =>
      simp only [after, joinStep]
      split
      · exact hi
      · simpa using hi
    case orchestrator => exact hi

-- A call that has not looked for a run yet has not gone on.
theorem begun_of_afterAll {more : List Happening} (hi : i < l.calls.length)
    (hb : (l.afterAll o more).calls[i]? = some .begun) :
    l.calls[i]? = some .begun ∧ .joinStep i ∉ more := by
  induction more using List.reverseRecOn
  case nil => exact ⟨hb, List.not_mem_nil⟩
  case append_singleton more h ih =>
    rw [afterAll_concat] at hb
    rcases calls_after hb with ⟨hb, hn⟩ | ⟨rfl, hj, _⟩ | ⟨_, call, _, he⟩
    · exact ⟨(ih hb).left, by simpa [(ih hb).right] using hn.symm⟩
    · exact absurd hi <| Nat.not_lt_of_le <| hj ▸ l.length_calls_le o more
    · exact absurd he.symm <| joinStep_ne_begun _ call

section Run

variable {s : State} {before after : List Happening} {facts : List Incident}

theorem launches_le_after (hc : l.state.lifecycle.Coherent facts) (h : Happening) :
    l.state.launches ≤ (l.after o h).state.launches := by
  rw [state_after]
  cases l.below? h
  case none => exact Nat.le_refl _
  case some h => exact State.after_turn hc h |>.launches_le

theorem over_after (hc : l.state.lifecycle.Coherent facts) (h : Happening)
    (ho : l.state.lifecycle.Over run) : (l.after o h).state.lifecycle.Over run := by
  rw [state_after]
  cases l.below? h
  case none => exact ho
  case some h => exact State.after_turn hc h |>.over ho

theorem state_of_initial (h : o.initial = .ok s) (history : List Happening) :
    (afterAll o { state := s } history).state.Attended ∧
      ∃ facts, (afterAll o { state := s } history).state.lifecycle.Coherent facts := by
  obtain ⟨below, hb⟩ := exists_history o { state := s } history
  rw [hb]
  exact ⟨State.attended h below, _, State.coherent_of_initial h below⟩

theorem awaits (h : o.initial = .ok s)
    (hr : run.number ≤ (afterAll o { state := s } before).state.launches)
    (hi : (afterAll o { state := s } before).calls.length = i)
    (hm : ∀ middle rest, after = middle ++ .joinStep i :: rest →
      ¬(afterAll o { state := s } (before ++ .join :: middle)).Misses i run) :
    let next := afterAll o { state := s } (before ++ .join :: after)
    run.number ≤ next.state.launches ∧
      ∀ call, next.calls[i]? = some call → Awaits next.state run call := by
  induction after using List.reverseRecOn
  case nil =>
    rw [afterAll_concat]
    refine ⟨hr, fun call hc => ?_⟩
    have hc : ((afterAll o { state := s } before).calls ++ [.begun])[i]? = some call := hc
    rw [← hi, List.getElem?_concat_length] at hc
    exact Option.some.inj hc ▸ .begun
  case append_singleton after h' ih =>
    have ⟨hl, hw⟩ := ih fun middle rest he => hm middle (rest ++ [h']) <| by simp [he]
    have ⟨ha, _, hc⟩ := state_of_initial h (before ++ .join :: after)
    rw [← List.cons_append, ← List.append_assoc, afterAll_concat]
    have hle := launches_le_after (o := o) hc h'
    refine ⟨hl.trans hle, fun call hcall => ?_⟩
    rcases calls_after hcall with ⟨hb, _⟩ | ⟨_, _, rfl⟩ | ⟨rfl, call', hb, rfl⟩
    · exact (hw call hb).mono hle <| over_after hc h'
    · exact .begun
    · refine Awaits.mono (.joinStep (hw call' hb) ha hc hl ?_) hle <| over_after hc _
      rintro rfl hh ht
      exact hm after [] rfl ⟨hb, hh, ht⟩

-- A run in flight that is not to be found was there to be found until somebody took it.
theorem exists_take (h : o.initial = .ok s) {history : List Happening}
    (hh : (afterAll o { state := s } history).state.handle = none)
    (ht : ((afterAll o { state := s } history).state.task? run).isSome) :
    ∃ earlier step later, history = earlier ++ step :: later ∧
      (afterAll o { state := s } earlier).Takes run step := by
  induction history using List.reverseRecOn
  case nil =>
    obtain ⟨_, rfl⟩ := State.eq_of_initial h
    cases ht
  case append_singleton history h' hi =>
    have ⟨ha, _, hc⟩ := state_of_initial h history
    have ⟨_, _, hc'⟩ := state_of_initial h (history ++ [h'])
    rw [afterAll_concat, state_after] at hh ht hc'
    cases hb : (afterAll o { state := s } history).below? h' <;> rw [hb] at hh ht hc'
    case none =>
      obtain ⟨earlier, step, later, rfl, hs⟩ := hi hh ht
      exact ⟨earlier, step, later ++ [h'], by simp, hs⟩
    case some below =>
      rcases ha.taken hc hc' hh ht with ⟨hn, hf⟩ | ⟨hf, rfl⟩
      · obtain ⟨earlier, step, later, rfl, hs⟩ := hi hn hf
        exact ⟨earlier, step, later ++ [h'], by simp, hs⟩
      · exact ⟨history, h', [], rfl, hf, hb⟩

end Run

end Lobby

-- What becomes of a call to join that has the given number, for a run that was launched when it began.
structure Joins (o : Orchestrator) (l : Lobby) (before : List Lobby.Happening) (i : Nat) (run : RunId) :
    Prop where
  waited : ∀ after, (l.afterAll o (before ++ .join :: after)).calls[i]? = some .returned →
    (∀ middle rest, after = middle ++ .joinStep i :: rest →
      ¬(l.afterAll o (before ++ .join :: middle)).Misses i run) →
        (l.afterAll o (before ++ .join :: after)).state.Processed run
  missed : ∀ after, (l.afterAll o (before ++ .join :: after)).Misses i run →
    (l.afterAll o (before ++ .join :: after ++ [.joinStep i])).calls[i]? = some .returned ∧
      ¬(l.afterAll o (before ++ .join :: after ++ [.joinStep i])).state.Processed run
  -- It is somebody else who has taken the run, at a moment at which it was there to be found.
  taken  : ∀ after, (l.afterAll o (before ++ .join :: after)).Misses i run →
    ∃ earlier step later, before ++ .join :: after = earlier ++ step :: later ∧
      step ≠ .joinStep i ∧ (l.afterAll o earlier).Takes run step

-- Whoever joins, starts runs and works on them at whatever moment: a call waits for the runs that were
-- launched before it, except for a run in flight that another call waits for.
theorem joins_unless_taken {o : Orchestrator} {s : State} {before : List Lobby.Happening} {run : RunId}
    (h : o.initial = .ok s) (hp : 0 < run.number)
    (hr : run.number ≤ (Lobby.afterAll o { state := s } before).state.launches) :
    Joins o { state := s } before (Lobby.afterAll o { state := s } before).calls.length run := by
  generalize hi : (Lobby.afterAll o { state := s } before).calls.length = i
  constructor
  case waited =>
    intro after hc hm
    have ⟨_, hw⟩ := Lobby.awaits h hr hi hm
    have ⟨ha, _, hcoh⟩ := Lobby.state_of_initial h (before ++ .join :: after)
    cases hw _ hc with
    | returned ho => exact ha.processed hcoh hp ho
  case missed =>
    intro after hm
    have ⟨_, _, hc⟩ := Lobby.state_of_initial h (before ++ .join :: after ++ [.joinStep i])
    have ⟨hr, ht⟩ := hm.joinStep (o := o)
    rw [← Lobby.afterAll_concat] at hr ht
    exact ⟨hr, State.not_processed hc ht⟩
  case taken =>
    intro after hm
    obtain ⟨earlier, step, later, he, hs⟩ := Lobby.exists_take h hm.empty hm.flight
    refine ⟨earlier, step, later, he, ?_, hs⟩
    rintro rfl
    have hb := hm.begun
    rw [he, Lobby.afterAll_append] at hb
    have ⟨_, hn⟩ := Lobby.begun_of_afterAll hs.index_lt hb
    exact hn <| .head _

-- One call alone, which has yet to look for the run in flight.
theorem joins_unless_taken_of_single :
    let o : Orchestrator := { runner := Catalog.builtin.runner }
    let s : State := { channel := { capacity := 64 } }
    let before : List Lobby.Happening := [.orchestrator (.start "" { name := "m" })]
    o.initial = .ok s ∧ 0 < (⟨1⟩ : RunId).number ∧
      1 ≤ (Lobby.afterAll o { state := s } before).state.launches ∧
        Joins o { state := s } before 0 ⟨1⟩ :=
  ⟨rfl, Nat.one_pos, Nat.le_refl _, joins_unless_taken rfl Nat.one_pos (Nat.le_refl _)⟩

-- Two calls that began when the run was in flight. The first one waits for it, and the second one returns
-- although the work of the run has not even begun.
theorem returned_in_flight :
    let o : Orchestrator := { runner := Catalog.builtin.runner }
    let s : State := { channel := { capacity := 64 } }
    let before : List Lobby.Happening := [.orchestrator (.start "" { name := "m" })]
    let ending := Lobby.afterAll o { state := s } (before ++ [.join, .join, .joinStep 0, .joinStep 1])
    o.initial = .ok s ∧ 1 ≤ (Lobby.afterAll o { state := s } before).state.launches ∧
      ending.calls = [.waiting ⟨1⟩, .returned] ∧ ending.state.channel.sent.length = 1 ∧
        ¬ending.state.Processed ⟨1⟩ :=
  ⟨rfl, Nat.le_refl _, rfl, rfl, fun hp => hp.inactive _ rfl rfl⟩

end ModelAudit.Orchestrator

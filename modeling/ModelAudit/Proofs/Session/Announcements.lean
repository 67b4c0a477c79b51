import ModelAudit.Proofs.Orchestrator.Containment
import ModelAudit.Proofs.Session.Provenance

namespace ModelAudit.Session

namespace Scene

-- The call is about to launch the run.
def Launching (s : Scene) (i : Nat) (trigger : Trigger) (run : RunId) : Prop :=
  ∃ d text, s.calls[i]? = some (trigger, .hasText d text) ∧
    (s.state.orchestrator.start text d).1 = .started run

-- The call has launched the run, and its trigger is yet to be remembered.
def Pending (s : Scene) (i : Nat) (trigger : Trigger) (run : RunId) : Prop :=
  s.calls[i]? = some (trigger, .answered (.started run))

-- A trigger is remembered, and it is the one of the run.
def note? (s : Scene) : Happening → Option (RunId × Trigger)
  | .callStep i =>
    match s.calls[i]? with
    | some (trigger, .answered (.started run)) => some (run, trigger)
    | _ => none
  | _ => none

-- What is remembered in the course of a history, one after the other.
def notes (o : Orchestrator) (s : Scene) : List Happening → List (RunId × Trigger)
  | [] => []
  | h :: history => (s.note? h).toList ++ (s.after o h).notes o history

variable {o : Orchestrator} {s : Scene} {h : Happening} {i j : Nat} {trigger t : Trigger}
  {run r : RunId} {call : Call} {history more : List Happening}

theorem notes_append (o : Orchestrator) (s : Scene) (history more : List Happening) :
    s.notes o (history ++ more) = s.notes o history ++ (s.afterAll o history).notes o more := by
  induction history generalizing s
  case nil => rfl
  case cons h history hi => simp [notes, hi, afterAll]

theorem notes_concat (o : Orchestrator) (s : Scene) (history : List Happening) (h : Happening) :
    s.notes o (history ++ [h]) = s.notes o history ++ ((s.afterAll o history).note? h).toList := by
  simp [notes_append, notes]

theorem note?_of_pending (hp : s.Pending i trigger run) :
    s.note? (.callStep i) = some (run, trigger) := by
  rw [note?, hp]

-- What a happening does to the orchestrator and to what is remembered for announcements.
inductive Bears (o : Orchestrator) (s : Scene) : Happening → State → Prop
  | aside {h : Happening} {s'} (ho : s'.orchestrator = s.state.orchestrator)
    (ht : s'.lastTrigger = s.state.lastTrigger) (hs : s'.suppressed = s.state.suppressed)
    (hn : s.note? h = none) (hh : h ≠ .suppress) : s.Bears o h s'
  | drive {h : Happening} {k} (hn : s.note? h = none) (hh : h ≠ .suppress) :
    s.Bears o h { s.state with orchestrator := s.state.orchestrator.after o k }
  | note {j : Nat} {t : Trigger} {r : RunId} (hp : s.Pending j t r) :
    s.Bears o (.callStep j) { s.state with lastTrigger := some t }
  | suppress : s.Bears o .suppress s.state.suppress

theorem callStep_bears (hc : s.calls[i]? = some (trigger, call)) :
    s.Bears o (.callStep i) (s.state.callStep trigger call).2 := by
  cases call
  case hasText d text => exact .drive (k := .start text d) (by simp [note?, hc]) nofun
  case answered outcome =>
    cases outcome
    case started run => exact .note hc
    all_goals exact .aside rfl rfl rfl (by simp [note?, hc]) nofun
  all_goals exact .aside rfl rfl rfl (by simp [note?, hc]) nofun

-- A watcher that goes on hears what was sent, and remembers nothing.
theorem watcherStep_state (s : State) (w : Watcher) :
    (s.watcherStep w).2.orchestrator = s.orchestrator ∧ (s.watcherStep w).2.lastTrigger = s.lastTrigger ∧
      (s.watcherStep w).2.suppressed = s.suppressed := by
  cases ht : w.text <;> simp only [State.watcherStep, ht]
  case some text => exact ⟨rfl, rfl, rfl⟩
  case none => split_ifs <;> exact ⟨rfl, rfl, rfl⟩

theorem after_bears (o : Orchestrator) (s : Scene) (h : Happening) : s.Bears o h (s.after o h).state := by
  cases h
  case callStep i =>
    cases hc : s.calls[i]? with
    | none =>
      simp only [after, callStep, hc]
      exact .aside rfl rfl rfl (by simp [note?, hc]) (by simp)
    | some =>
      simp only [after, callStep, hc]
      exact callStep_bears hc
  case watcherStep i =>
    cases hw : s.state.watchers[i]? with
    | none =>
      simp only [after, watcherStep, hw]
      exact .aside rfl rfl rfl rfl (by simp)
    | some w =>
      obtain ⟨ho, ht, hs⟩ := watcherStep_state s.state w
      simp only [after, watcherStep, hw]
      exact .aside ho ht hs rfl (by simp)
  case suppress => exact .suppress
  case orchestrator h => exact .drive (k := h) rfl (by simp)
  all_goals exact .aside rfl rfl rfl rfl (by simp)

section Memory

theorem lastTrigger_after (o : Orchestrator) (s : Scene) (h : Happening) :
    (s.after o h).state.lastTrigger = ((s.note? h).map (·.2)).or s.state.lastTrigger := by
  generalize hs : (s.after o h).state = s'
  cases hs ▸ s.after_bears o h with
  | aside _ ht _ hn => simp [hn, ht]
  | drive hn => simp [hn]
  | note hp => simp [note?_of_pending hp]
  | suppress => rfl

theorem suppressed_after (o : Orchestrator) (s : Scene) (h : Happening) :
    (s.after o h).state.suppressed = true ↔ s.state.suppressed = true ∨ h = .suppress := by
  generalize hs : (s.after o h).state = s'
  cases hs ▸ s.after_bears o h with
  | aside _ _ hs _ hh => simp [hs, hh]
  | drive _ hh => simp [hh]
  | note => simp
  | suppress => simp [State.suppress]

-- The note that was made last decides what is remembered.
theorem lastTrigger_afterAll (o : Orchestrator) (s : Scene) (history : List Happening) :
    (s.afterAll o history).state.lastTrigger =
      ((s.notes o history).getLast?.map (·.2)).or s.state.lastTrigger := by
  induction history using List.reverseRecOn
  case nil => rfl
  case append_singleton history h hi =>
    rw [afterAll_concat, lastTrigger_after, hi, notes_concat]
    cases (s.afterAll o history).note? h <;> simp

theorem suppressed_afterAll (o : Orchestrator) (s : Scene) (history : List Happening) :
    (s.afterAll o history).state.suppressed = true ↔
      s.state.suppressed = true ∨ .suppress ∈ history := by
  induction history using List.reverseRecOn
  case nil => simp [afterAll]
  case append_singleton history h hi =>
    rw [afterAll_concat, suppressed_after, hi, or_assoc, List.mem_append, List.mem_singleton,
      eq_comm (a := h)]

theorem shouldAnnounce_iff (s : State) :
    s.shouldAnnounce = true ↔ s.lastTrigger = some .shortcut ∧ ¬s.suppressed = true := by
  simp [State.shouldAnnounce]

end Memory

section Launching

theorem launches_le_after (o : Orchestrator) (s : Scene) (h : Happening) :
    s.state.orchestrator.launches ≤ (s.after o h).state.orchestrator.launches := by
  generalize hs : (s.after o h).state = s'
  cases hs ▸ s.after_bears o h with
  | aside ho => exact Nat.le_of_eq <| congrArg _ ho.symm
  | drive => exact (s.state.orchestrator.after_step o _).launches_le
  | note => exact Nat.le_refl _
  | suppress => exact Nat.le_refl _

theorem launches_le_afterAll (o : Orchestrator) (s : Scene) (history : List Happening) :
    s.state.orchestrator.launches ≤ (s.afterAll o history).state.orchestrator.launches := by
  induction history generalizing s
  case nil => exact Nat.le_refl _
  case cons h history hi => exact (s.launches_le_after o h).trans <| hi _

theorem Launching.launches (hl : s.Launching i trigger run) :
    run.number = s.state.orchestrator.launches + 1 ∧
      (s.after o (.callStep i)).state.orchestrator.launches = run.number := by
  obtain ⟨d, text, hc, hs⟩ := hl
  obtain ⟨hp, rfl⟩ := Orchestrator.State.idle_of_started hs
  refine ⟨rfl, ?_⟩
  simp only [after, callStep, hc, State.callStep, Orchestrator.State.start, hp]
  rfl

-- A call is in this position only if it was before, or if its run is launched in this step.
theorem pending_after (hp : (s.after o h).Pending i trigger run) :
    s.Pending i trigger run ∨ h = .callStep i ∧ s.Launching i trigger run := by
  rcases calls_after hp with hp | hb | ⟨rfl, call, hc, he⟩
  · exact .inl hp
  · cases hb
  · cases call with
    | hasText d text => exact .inr ⟨rfl, d, text, hc, (Call.answered.inj he).symm⟩
    | _ => cases he

theorem Launching.unique (hl : s.Launching i trigger run) (hl' : s.Launching i t r) :
    t = trigger ∧ r = run := by
  obtain ⟨d, text, hc, hs⟩ := hl
  obtain ⟨d', text', hc', hs'⟩ := hl'
  cases hc.symm.trans hc'
  cases hs.symm.trans hs'
  exact ⟨rfl, rfl⟩

theorem Launching.note?_eq_none (hl : s.Launching i trigger run) : s.note? (.callStep i) = none := by
  obtain ⟨_, _, hc, _⟩ := hl
  rw [note?, hc]

theorem exists_pending_of_note? (hn : s.note? h = some (run, trigger)) :
    ∃ j, h = .callStep j ∧ s.Pending j trigger run := by
  cases h with
  | callStep j =>
    simp only [note?] at hn
    split at hn
    case h_1 hc => cases hn; exact ⟨j, rfl, hc⟩
    case h_2 => cases hn
  | _ => cases hn

-- A call goes on only when it is its turn.
theorem Pending.after (hp : s.Pending i trigger run) (hn : h ≠ .callStep i) :
    (s.after o h).Pending i trigger run := by
  unfold Pending at hp ⊢
  cases h
  case call => exact List.getElem?_append_left (List.getElem?_eq_some_iff.mp hp).1 |>.trans hp
  case callStep j =>
    simp only [Scene.after, callStep]
    split
    · exact hp
    · rw [List.getElem?_set_ne fun he => hn <| congrArg Happening.callStep he]
      exact hp
  case watcherStep j =>
    simp only [Scene.after, watcherStep]
    split <;> exact hp
  all_goals exact hp

variable {after : List Happening}

-- As long as no other run is launched, nobody else gets into this position.
theorem Launching.pending (hl : s.Launching i trigger run)
    (hn : (s.afterAll o (.callStep i :: after)).state.orchestrator.launches ≤ run.number)
    (hp : (s.afterAll o (.callStep i :: after)).Pending j t r) :
    (j = i ∧ t = trigger ∧ r = run) ∨ s.Pending j t r := by
  induction after using List.reverseRecOn
  case nil =>
    have hp : (s.after o (.callStep i)).Pending j t r := hp
    rcases pending_after hp with hp | ⟨he, hl'⟩
    · exact .inr hp
    · cases he
      exact .inl ⟨rfl, hl.unique hl'⟩
  case append_singleton after h hi =>
    rw [← List.cons_append, afterAll_concat] at hn hp
    rcases pending_after hp with hp | ⟨rfl, hl'⟩
    · exact hi ((launches_le_after ..).trans hn) hp
    · have hle := launches_le_afterAll o (s.after o (.callStep i)) after
      rw [(hl.launches (o := o)).right] at hle
      have hlt := hl'.launches (o := o)
      rw [afterAll, List.foldl_cons] at hlt hn
      rw [afterAll] at hle
      omega

theorem Launching.notes (hl : s.Launching i trigger run)
    (hn : (s.afterAll o (.callStep i :: after)).state.orchestrator.launches ≤ run.number) :
    ∀ note ∈ s.notes o (.callStep i :: after), note = (run, trigger) ∨ ∃ j, s.Pending j note.2 note.1 := by
  induction after using List.reverseRecOn
  case nil => simp [Scene.notes, hl.note?_eq_none]
  case append_singleton after h hi =>
    intro note hm
    rw [← List.cons_append, afterAll_concat] at hn
    rw [← List.cons_append, notes_concat] at hm
    have hle := (launches_le_after _ _ h).trans hn
    rcases List.mem_append.mp hm with hm | hm
    · exact hi hle note hm
    · obtain ⟨j, rfl, hp⟩ := exists_pending_of_note? <| Option.mem_toList.mp hm
      rcases hl.pending hle hp with ⟨_, ht, hr⟩ | hp
      · exact .inl <| Prod.ext hr ht
      · exact .inr ⟨j, hp⟩

-- The call of the run has its trigger remembered before it returns.
theorem Launching.pending_or_noted (hl : s.Launching i trigger run) (after : List Happening) :
    (s.afterAll o (.callStep i :: after)).Pending i trigger run ∨
      (run, trigger) ∈ s.notes o (.callStep i :: after) := by
  induction after using List.reverseRecOn
  case nil =>
    obtain ⟨d, text, hc, hs⟩ := hl
    have hi := (List.getElem?_eq_some_iff.mp hc).1
    have ha : (s.afterAll o [.callStep i]).calls =
        s.calls.set i (trigger, .answered (s.state.orchestrator.start text d).1) := by
      simp only [afterAll, List.foldl_cons, List.foldl_nil, Scene.after, callStep, hc, State.callStep]
    rw [Pending, ha, hs, List.getElem?_set_self hi]
    exact .inl rfl
  case append_singleton after h ih =>
    rw [← List.cons_append, afterAll_concat, notes_concat]
    rcases ih with hp | hm
    · by_cases he : h = .callStep i
      · subst he
        exact .inr <| List.mem_append_right _ <| by simp [note?_of_pending hp]
      · exact .inl <| hp.after he
    · exact .inr <| List.mem_append_left _ hm

end Launching

end Scene

-- What is announced of a run that a call has launched, when no other run was launched since.
structure Announces (o : Orchestrator) (s₀ : Scene) (before : List Happening) (i : Nat) (trigger : Trigger)
    (run : RunId) (after : List Happening) : Prop where
  -- Somebody who asks is answered by the note that was made last.
  answer_iff : (s₀.afterAll o (before ++ .callStep i :: after)).state.shouldAnnounce = true ↔
    (∃ r, (s₀.notes o (before ++ .callStep i :: after)).getLast? = some (r, .shortcut)) ∧
      .suppress ∉ before ++ .callStep i :: after
  right_iff  : ((s₀.afterAll o (before ++ .callStep i :: after)).state.shouldAnnounce = true ↔
      trigger = .shortcut ∧ .suppress ∉ before ++ .callStep i :: after) ↔
    .suppress ∈ before ++ .callStep i :: after ∨
      ((∃ r, (s₀.notes o (before ++ .callStep i :: after)).getLast? = some (r, .shortcut)) ↔
        trigger = .shortcut)
  -- The notes since the launch are the one of the run and those that were outstanding then.
  notes      : ∀ note ∈ (s₀.afterAll o before).notes o (.callStep i :: after),
    note = (run, trigger) ∨ ∃ j, (s₀.afterAll o before).Pending j note.2 note.1
  -- If none was outstanding, the answer is right as soon as the one of the run has been made.
  settled    : (∀ j t r, ¬(s₀.afterAll o before).Pending j t r) →
    ¬(s₀.afterAll o (before ++ .callStep i :: after)).Pending i trigger run →
      ((s₀.afterAll o (before ++ .callStep i :: after)).state.shouldAnnounce = true ↔
        trigger = .shortcut ∧ .suppress ∉ before ++ .callStep i :: after)

section Announces

variable {o : Orchestrator} {d : Document} {s : State}

theorem answer_iff_note (h : Session.initial o d = .ok s) (history : List Happening) :
    (Scene.afterAll o { state := s } history).state.shouldAnnounce = true ↔
      (∃ r, (Scene.notes o { state := s } history).getLast? = some (r, .shortcut)) ∧
        .suppress ∉ history := by
  obtain ⟨_, rfl⟩ := eq_of_initial h
  rw [Scene.shouldAnnounce_iff, Scene.lastTrigger_afterAll, Scene.suppressed_afterAll]
  simp

end Announces

-- Whoever triggers runs at whatever moment: the answer depends on the notes that have been made, and it
-- is wrong for a run until its own note has been made, or when an earlier one is made after that.
theorem announces_last_note {o : Orchestrator} {d : Document} {s : State} {before after : List Happening}
    {i : Nat} {trigger : Trigger} {run : RunId} (h : Session.initial o d = .ok s)
    (hl : (Scene.afterAll o { state := s } before).Launching i trigger run)
    (hn : (Scene.afterAll o { state := s } (before ++ .callStep i :: after)).state.orchestrator.launches ≤
      run.number) : Announces o { state := s } before i trigger run after := by
  have ha := answer_iff_note (o := o) h (before ++ .callStep i :: after)
  have hnotes := hl.notes <| Scene.afterAll_append o _ before _ ▸ hn
  constructor
  case answer_iff => exact ha
  case right_iff =>
    rw [ha]
    tauto
  case notes => exact hnotes
  case settled =>
    intro hp hr
    rw [Scene.afterAll_append] at hr
    have hm := (hl.pending_or_noted after).resolve_left hr
    -- All notes since the launch are the one of the run, so it is the last one as well.
    have hall (note) (hm : note ∈ (Scene.afterAll o { state := s } before).notes o (.callStep i :: after)) :
        note = (run, trigger) :=
      (hnotes note hm).resolve_right fun ⟨j, hj⟩ => hp j _ _ hj
    have hlast : ((Scene.afterAll o { state := s } before).notes o (.callStep i :: after)).getLast? =
        some (run, trigger) := by
      rw [List.getLast?_eq_some_getLast <| List.ne_nil_of_mem hm, hall _ <| List.getLast_mem _]
    rw [ha, Scene.notes_append, List.getLast?_append, hlast]
    simp

-- Nobody comes between the steps of a call by shortcut, and the work of its run is done afterwards.
theorem announces_last_note_of_undisturbed :
    let o : Orchestrator := { runner := Catalog.builtin.runner }
    let s : State := { orchestrator := { channel := { capacity := 64 } },
                       provider := { current := { name := "m" } }, specText := CheckSet.emptyText }
    let before : List Happening := [.call .shortcut, .callStep 0, .callStep 0]
    let after : List Happening := .callStep 0 :: List.replicate 6 (.orchestrator (.work ⟨1⟩ []))
    let ending := Scene.afterAll o { state := s } (before ++ .callStep 0 :: after)
    Session.initial o { name := "m" } = .ok s ∧
      (Scene.afterAll o { state := s } before).Launching 0 .shortcut ⟨1⟩ ∧
        ending.state.orchestrator.launches ≤ 1 ∧ ending.state.orchestrator.phase = .idle ∧
          ending.state.shouldAnnounce = true ∧
            Announces o { state := s } before 0 .shortcut ⟨1⟩ after := by
  intro o s before after ending
  have h : Session.initial o { name := "m" } = .ok s := by
    rw [Session.initial, Orchestrator.State.initial_of_runner]
    rfl
  have hl : (Scene.afterAll o { state := s } before).Launching 0 .shortcut ⟨1⟩ := ⟨_, _, rfl, rfl⟩
  have hn : ending.state.orchestrator.launches ≤ 1 := by decide +kernel
  exact ⟨h, hl, hn, by decide +kernel, by decide +kernel, announces_last_note h hl hn⟩

-- The run of a call by shortcut is completed before that is remembered, and nobody would announce it. The
-- one of a call by button is completed when an earlier call by shortcut is late, and it would be announced.
theorem announced_wrongly :
    let o : Orchestrator := { runner := Catalog.builtin.runner }
    let s : State := { orchestrator := { channel := { capacity := 64 } },
                       provider := { current := { name := "m" } }, specText := CheckSet.emptyText }
    let launch (i : Nat) : List Happening := [.callStep i, .callStep i, .callStep i]
    let work (run : RunId) : List Happening := List.replicate 6 (.orchestrator (.work run []))
    let early := .call .shortcut :: launch 0 ++ work ⟨1⟩
    let late := early ++ .call .button :: launch 1 ++ [.callStep 1, .callStep 0] ++ work ⟨2⟩
    let lost := Scene.afterAll o { state := s } early
    let spurious := Scene.afterAll o { state := s } late
    Session.initial o { name := "m" } = .ok s ∧
      (lost.calls[0]? = some (.shortcut, .answered (.started ⟨1⟩)) ∧
        (Orchestrator.completionsOf ⟨1⟩ lost.state.orchestrator.channel.sent).length = 1 ∧
          lost.state.suppressed = false ∧ lost.state.shouldAnnounce = false) ∧
      (Scene.notes o { state := s } late = [(⟨2⟩, .button), (⟨1⟩, .shortcut)] ∧
        (Orchestrator.completionsOf ⟨2⟩ spurious.state.orchestrator.channel.sent).length = 1 ∧
          spurious.state.shouldAnnounce = true) := by
  intro o s launch work early late lost spurious
  refine ⟨?_, ⟨rfl, ?_, ?_, ?_⟩, ?_, ?_, ?_⟩
  · rw [Session.initial, Orchestrator.State.initial_of_runner]
    rfl
  all_goals decide +kernel

end ModelAudit.Session

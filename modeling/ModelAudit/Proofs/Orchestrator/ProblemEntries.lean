import ModelAudit.Proofs.Orchestrator.Turns

namespace ModelAudit

-- Whoever comes leaves the entries of the checks alone.
def Visit.Foreign : Visit → Prop
  | push p => p.origin ≠ .sanity
  | remove origin => origin ≠ .sanity
  | register _ | take _ | revoke _ => True

namespace ProblemList

variable {l m : ProblemList} {v : Visit} {vs : List Visit} {p : Problem} {ps : List Problem}

-- The two lists differ in the entries of the checks at most.
def Agrees (l m : ProblemList) : Prop :=
  l.remove .sanity = m.remove .sanity

theorem visitAll_append (l : ProblemList) (vs ws : List Visit) :
    l.visitAll (vs ++ ws) = (l.visitAll vs).visitAll ws :=
  List.foldl_append

theorem agrees_remove (l : ProblemList) : (l.remove .sanity).Agrees l := by
  simp [Agrees, remove, List.filter_filter]

theorem agrees_push (l : ProblemList) (h : p.origin = .sanity) : (l.push p).Agrees l := by
  simp [Agrees, remove, push, h]

theorem Agrees.visit (h : l.Agrees m) (v : Visit) : (l.visit v).Agrees (m.visit v) := by
  have h : l.entries.filter (·.origin != .sanity) = m.entries.filter (·.origin != .sanity) :=
    congrArg entries h
  cases v
  case push p => simp [Agrees, remove, ProblemList.visit, push, List.filter_append, h]
  case remove origin =>
    have hc (l : ProblemList) : ((l.remove origin).remove .sanity).entries =
        (l.entries.filter (·.origin != .sanity)).filter (·.origin != origin) := by
      simp only [remove, List.filter_filter, Bool.and_comm]
    exact congrArg ProblemList.mk <| (hc l).trans <| h ▸ (hc m).symm
  all_goals exact congrArg ProblemList.mk h

theorem Agrees.visitAll (h : l.Agrees m) (vs : List Visit) : (l.visitAll vs).Agrees (m.visitAll vs) := by
  induction vs generalizing l m
  case nil => exact h
  case cons v vs hi => exact hi (h.visit v)

theorem ofOrigin_visit (hv : v.Foreign) : (l.visit v).ofOrigin .sanity = l.ofOrigin .sanity := by
  cases v
  case push p => simp [ProblemList.visit, ofOrigin_push, show p.origin ≠ .sanity from hv]
  case remove origin => exact ofOrigin_remove_of_ne (Ne.symm hv) l
  all_goals rfl

theorem ofOrigin_visitAll (hv : ∀ v ∈ vs, v.Foreign) :
    (l.visitAll vs).ofOrigin .sanity = l.ofOrigin .sanity := by
  induction vs generalizing l
  case nil => rfl
  case cons v vs hi =>
    have ⟨hv, hvs⟩ := List.forall_mem_cons.mp hv
    exact (hi hvs).trans <| ofOrigin_visit hv

-- What others have put into the list.
def pushed? : Visit → Option Problem
  | .push p => some p
  | _ => none

theorem entries_visitAll (hv : ∀ v ∈ vs, ∀ origin, v ≠ .remove origin) :
    (l.visitAll vs).entries = l.entries ++ vs.filterMap pushed? := by
  induction vs generalizing l
  case nil => exact (List.append_nil _).symm
  case cons v vs hi =>
    have ⟨hn, hvs⟩ := List.forall_mem_cons.mp hv
    refine (hi hvs).trans ?_
    cases v
    case push p => simp [visit, push, pushed?]
    case remove origin => exact absurd rfl <| hn origin
    all_goals rfl

end ProblemList

namespace Orchestrator

-- What others do at the first so many accesses.
def taken (n : Nat) (visits : Visits) : List Visit :=
  (visits.take n).flatten

theorem taken_succ (n : Nat) (visits : Visits) :
    taken (n + 1) visits = visits.headD [] ++ taken n visits.tail := by
  cases visits <;> simp [taken]

theorem taken_add (m n : Nat) (visits : Visits) :
    taken (m + n) visits = taken m visits ++ taken n (visits.drop m) := by
  rw [taken, List.take_add, List.flatten_append]
  rfl

theorem problems_register (visits : Visits) (s : Shared) (records : List Record) :
    (register visits s records).2.2.problems =
        s.problems.visitAll (taken (records.countP (·.hasTrace)) visits) ∧
      (register visits s records).2.1 = visits.drop (records.countP (·.hasTrace)) := by
  induction records generalizing visits s
  case nil => simp [register, taken, ProblemList.visitAll]
  case cons r rs hi =>
    cases ht : r.trace
    case none =>
      have hr : r.hasTrace = false := by rw [Record.hasTrace, ht]; rfl
      simp only [register, ht, List.countP_cons, hr]
      exact hi visits s
    case some a =>
      have hr : r.hasTrace = true := by rw [Record.hasTrace, ht]; rfl
      simp only [register, ht, List.countP_cons, hr, if_true, taken_succ, ProblemList.visitAll_append]
      obtain ⟨hp, hd⟩ := hi visits.tail
        { s.yield visits with registry := ((s.yield visits).registry.register a).2 }
      refine ⟨hp.trans ?_, hd.trans ?_⟩
      · rw [s.problems_yield]
      · rw [← List.drop_one, List.drop_drop, Nat.add_comm]

theorem report_agrees (visits : Visits) (s : Shared) {ps : List Problem}
    (hp : ∀ p ∈ ps, p.origin = .sanity) :
    (report visits s ps).problems.Agrees (s.problems.visitAll (taken ps.length visits)) := by
  induction ps generalizing visits s
  case nil => exact rfl
  case cons p ps hi =>
    have ⟨hp, hps⟩ := List.forall_mem_cons.mp hp
    refine (hi visits.tail _ hps).trans ?_
    rw [List.length_cons, taken_succ, ProblemList.visitAll_append, ← s.problems_yield]
    exact (ProblemList.agrees_push _ hp).visitAll _

theorem ofOrigin_report (visits : Visits) (s : Shared) {ps : List Problem}
    (hp : ∀ p ∈ ps, p.origin = .sanity) (hv : ∀ v ∈ taken ps.length visits, v.Foreign) :
    (report visits s ps).problems.ofOrigin .sanity = s.problems.ofOrigin .sanity ++ ps := by
  induction ps generalizing visits s
  case nil => exact (List.append_nil _).symm
  case cons p ps hi =>
    have ⟨hp, hps⟩ := List.forall_mem_cons.mp hp
    rw [List.length_cons, taken_succ] at hv
    have ⟨hv, hvs⟩ := List.forall_mem_append.mp hv
    refine (hi visits.tail _ hps hvs).trans ?_
    rw [ProblemList.ofOrigin_push, if_pos hp, s.problems_yield, ProblemList.ofOrigin_visitAll hv]
    simp

-- The entries for the records of a run.
def entriesOf (o : Orchestrator) (records : List Record) : List Problem :=
  if o.config.publishProblems then
    (records.filter (!·.satisfied)).map fun r =>
      { origin := .sanity, severity := .error, path := r.check, description := r.message }
  else []

def findings (o : Orchestrator) : Closing → List Problem
  | .completed c => o.entriesOf c.records
  | .cancelled => []

theorem origin_of_mem_entriesOf {o : Orchestrator} {records : List Record} {p : Problem}
    (h : p ∈ o.entriesOf records) : p.origin = .sanity := by
  unfold entriesOf at h
  split at h
  · have ⟨_, _, he⟩ := List.mem_map.mp h
    rw [← he]
  · cases h

namespace State

-- What others do in the course of a happening. They may come before each access of a run that publishes.
def visitsAt (o : Orchestrator) (s : State) : Happening → List Visit
  | .visit v => [v]
  | .work run visits =>
    match s.task? run with
    | none => []
    | some t =>
      match t.stage with
      | .settled (.finished records) =>
        if s.generation = t.generation then
          taken (1 + records.countP (·.hasTrace) + (o.entriesOf records).length) visits
        else []
      | _ => []
  | _ => []

def visits (o : Orchestrator) (s : State) : List Happening → List Visit
  | [] => []
  | h :: history => s.visitsAt o h ++ (s.after o h).visits o history

section

variable {o : Orchestrator} {s : State} {t : Task} {visits : Visits} {h : Happening}
  {records : List Record}

theorem visits_concat (o : Orchestrator) (s : State) (history : List Happening) (h : Happening) :
    s.visits o (history ++ [h]) = s.visits o history ++ (s.afterAll o history).visitsAt o h := by
  induction history generalizing s
  case nil => exact List.append_nil _
  case cons h' history hi => simp [State.visits, hi, afterAll_cons]

theorem visitsAt_of_aside (hw : ∀ run visits, h = .work run visits → s.advance? o visits run = none) :
    s.visitsAt o h = h.visits := by
  cases h
  case work run visits =>
    have ha := hw run visits rfl
    cases ht : s.task? run
    case none => simp [visitsAt, ht, Happening.visits]
    case some t =>
      simp only [visitsAt, ht, Happening.visits]
      split
      case h_1 hs => simp [advance?, ht, step?, hs] at ha
      case h_2 => rfl
  all_goals rfl

theorem visitsAt_of_unfinished (ht : s.tasks = [t])
    (hn : ∀ records, t.stage ≠ .settled (.finished records)) :
    s.visitsAt o (.work t.run visits) = [] := by
  simp only [visitsAt, task?_of_tasks ht]

theorem visitsAt_of_finished (ht : s.tasks = [t]) (hs : t.stage = .settled (.finished records))
    (hg : s.generation = t.generation) : s.visitsAt o (.work t.run visits) =
      taken (1 + records.countP (·.hasTrace) + (o.entriesOf records).length) visits := by
  simp only [visitsAt, task?_of_tasks ht, hs, if_pos hg]

-- The part of the publication that is over when the first entry is reported.
theorem exists_report_finish (hg : s.generation = t.generation) (visits : Visits)
    (records : List Record) : ∃ shared,
      shared.problems = s.shared.problems.visitAll (taken (1 + records.countP (·.hasTrace)) visits) ∧
      (s.finish o visits t (.finished records)).shared =
        report (visits.drop (1 + records.countP (·.hasTrace))) shared (o.entriesOf records) := by
  let shared : Shared := { s.shared.yield visits with
    registry := ((s.shared.yield visits).registry.revoke s.published).2 }
  have ⟨hp, hd⟩ := problems_register visits.tail shared records
  refine ⟨(register visits.tail shared records).2.2, ?_, ?_⟩
  · rw [hp, Nat.add_comm, taken_succ, ProblemList.visitAll_append, ← s.shared.problems_yield]
  · have hf : (s.finish o visits t (.finished records)).shared =
        report (register visits.tail shared records).2.1 (register visits.tail shared records).2.2
          ((if o.config.publishProblems then records.filter (!·.satisfied) else []).map problemOf) := by
      rw [finish, if_pos hg]
      rfl
    rw [hf, hd, List.drop_tail, Nat.add_comm, apply_ite (List.map problemOf)]
    rfl

theorem shared_finish_cancelled (hg : s.generation = t.generation) (visits : Visits) (discarded : Nat) :
    (s.finish o visits t (.cancelled discarded)).shared = s.shared := by
  rw [finish, if_pos hg]
  rfl

end

-- The entries that the last end of a run leaves behind.
def lastFindings (o : Orchestrator) (sent : List RunEvent) : List Problem :=
  ((sent.filterMap RunEvent.closing?).getLast?.map o.findings).getD []

theorem lastFindings_concat {o : Orchestrator} {sent : List RunEvent} {event : RunEvent} {closing : Closing}
    (h : event.closing? = some closing) : lastFindings o (sent ++ [event]) = o.findings closing := by
  simp [lastFindings, h]

theorem lastFindings_concat_of_none {o : Orchestrator} {sent : List RunEvent} {event : RunEvent}
    (h : event.closing? = none) : lastFindings o (sent ++ [event]) = lastFindings o sent := by
  simp [lastFindings, h]

-- What there is to be seen of the checks. With its first step a run takes back what the one before has
-- reported, and until it ends there is nothing in its place.
structure Shows (o : Orchestrator) (s : State) : Prop where
  stands  : (∀ t ∈ s.tasks, t.stage = .launched) →
    s.shared.problems.ofOrigin .sanity = lastFindings o s.channel.sent
  cleared : ∀ t ∈ s.tasks, t.stage ≠ .launched → s.shared.problems.ofOrigin .sanity = []

variable {o : Orchestrator} {s s' s₀ : State} {h : Happening} {history : List Happening}

theorem Turn.agrees (ht : s.Turn o h s') :
    s'.shared.problems.Agrees (s.shared.problems.visitAll (s.visitsAt o h)) := by
  cases ht with
  | aside hw _ _ _ _ hp => rw [visitsAt_of_aside hw, hp]; rfl
  | launch hl => rw [hl.shared]; rfl
  | @go t _ _ _ _ ht hn _ _ _ _ hs =>
    rw [visitsAt_of_unfinished ht fun _ => hn _]
    by_cases hl : t.stage = .launched
    case pos =>
      rw [cleared_of_step? hs hl |>.left]
      exact s.shared.problems.agrees_remove
    case neg =>
      rw [kept_of_step? hs hl hn |>.left]
      rfl
  | @close t outcome visits ht hs hg =>
    cases outcome
    case cancelled =>
      rw [visitsAt_of_unfinished ht (by simp [hs]), shared_finish_cancelled hg]
      rfl
    case finished records =>
      have ⟨shared, hp, hf⟩ := exists_report_finish (o := o) hg visits records
      rw [visitsAt_of_finished ht hs hg, hf, taken_add, ProblemList.visitAll_append, ← hp]
      exact report_agrees _ shared fun _ => origin_of_mem_entriesOf

theorem Shows.turn (hs : s.Shows o) (ht : s.Turn o h s') (hv : ∀ v ∈ s.visitsAt o h, v.Foreign) :
    s'.Shows o := by
  cases ht with
  | aside hw ht hs' _ _ hp =>
    rw [visitsAt_of_aside hw] at hv
    constructor <;> rw [hp, ProblemList.ofOrigin_visitAll hv, ht]
    case stands => rw [hs']; exact hs.stands
    case cleared => exact hs.cleared
  | launch hl =>
    constructor <;> rw [hl.shared, hl.tasks']
    case stands =>
      rw [hl.sent, lastFindings_concat_of_none rfl]
      exact fun _ => hs.stands <| by simp [hl.tasks]
    case cleared =>
      intro t hm hn
      rw [List.mem_singleton.mp hm] at hn
      exact absurd (s.lifecycle.stage_nextTask ..) hn
  | @go t _ stage _ _ ht hn hg ht' _ _ hstep =>
    constructor <;> rw [ht']
    case stands => exact fun hl => absurd (hl _ <| List.mem_singleton_self _) hg.ne_launched
    case cleared =>
      intro _ _ _
      by_cases hl : t.stage = .launched
      case pos =>
        rw [cleared_of_step? hstep hl |>.left]
        exact s.shared.problems.ofOrigin_remove_self .sanity
      case neg =>
        rw [kept_of_step? hstep hl hn |>.left]
        exact hs.cleared t (by simp [ht]) hl
  | @close t outcome visits ht hstage hg =>
    have he := hs.cleared t (by simp [ht]) (by simp [hstage])
    constructor <;> rw [tasks_finish hg ht]
    case cleared => exact fun _ hm => absurd hm List.not_mem_nil
    case stands =>
      intro _
      cases outcome
      case cancelled =>
        rw [shared_finish_cancelled hg, sent_finish_cancelled hg, lastFindings_concat rfl, he]
        rfl
      case finished records =>
        have ⟨shared, hp, hf⟩ := exists_report_finish (o := o) hg visits records
        have ⟨c, hc, hs'⟩ := sent_finish_finished (o := o) hg visits records
        rw [visitsAt_of_finished ht hstage hg, taken_add] at hv
        have ⟨hv, hv'⟩ := List.forall_mem_append.mp hv
        have hr := ofOrigin_report _ shared (fun _ => origin_of_mem_entriesOf) hv'
        rw [hf, hs', lastFindings_concat rfl, hr, hp, ProblemList.ofOrigin_visitAll hv, he, findings,
          hc.records]
        rfl

theorem agrees_of_initial (h : o.initial = .ok s₀) (history : List Happening) :
    (s₀.afterAll o history).shared.problems.Agrees (ProblemList.visitAll {} <| s₀.visits o history) := by
  refine turn_induction h [] (motive := fun history => (s₀.afterAll o history).shared.problems.Agrees
    (ProblemList.visitAll {} <| s₀.visits o history)) ?_ ?_ history
  · obtain ⟨capacity, rfl⟩ := eq_of_initial h
    exact rfl
  · intro history h' ha ht
    rw [visits_concat, ProblemList.visitAll_append]
    exact ht.agrees.trans <| ha.visitAll _

theorem shows_of_initial (h : o.initial = .ok s₀) (history : List Happening)
    (hv : ∀ v ∈ s₀.visits o history, v.Foreign) : (s₀.afterAll o history).Shows o := by
  refine turn_induction h [] (motive := fun history =>
    (∀ v ∈ s₀.visits o history, v.Foreign) → (s₀.afterAll o history).Shows o) ?_ ?_ history hv
  · obtain ⟨capacity, rfl⟩ := eq_of_initial h
    exact fun _ => ⟨fun _ => rfl, by simp [afterAll]⟩
  · intro history h' hs ht hv
    rw [visits_concat] at hv
    obtain ⟨hv, hv'⟩ := List.forall_mem_append.mp hv
    exact (hs hv).turn ht hv'

-- What is in the list of problems after a history.
structure Entries (o : Orchestrator) (s₀ : State) (history : List Happening) : Prop where
  external : (s₀.afterAll o history).shared.problems.remove .sanity =
    (ProblemList.visitAll {} <| s₀.visits o history).remove .sanity
  -- If nobody takes anything out, these are the entries that others have put in.
  pushed   : (∀ v ∈ s₀.visits o history, ∀ origin, v ≠ .remove origin) →
    ((s₀.afterAll o history).shared.problems.remove .sanity).entries =
      ((s₀.visits o history).filterMap ProblemList.pushed?).filter (·.origin != .sanity)
  sanity   : (∀ v ∈ s₀.visits o history, v.Foreign) → (s₀.afterAll o history).phase = .idle →
    ∀ closing, ((s₀.afterAll o history).channel.sent.filterMap RunEvent.closing?).getLast? = some closing →
      (s₀.afterAll o history).shared.problems.ofOrigin .sanity = o.findings closing

end State

theorem problem_entries {o : Orchestrator} {s : State} (h : o.initial = .ok s) (history : List Happening) :
    s.Entries o history := by
  have ha := State.agrees_of_initial h history
  constructor
  case external => exact ha
  case pushed =>
    intro hn
    refine (congrArg ProblemList.entries ha).trans ?_
    exact congrArg (List.filter _) <| (ProblemList.entries_visitAll hn).trans <| List.nil_append _
  case sanity =>
    intro hv hi closing hc
    have ht : (s.afterAll o history).tasks = [] :=
      State.coherent_of_initial h history |>.flight.grounded_of_idle hi |>.right
    rw [State.shows_of_initial h history hv |>.stands (by simp [ht]), State.lastFindings, hc]
    rfl

-- Two runs that fail. Others put entries into the list before the first one and while the second one
-- publishes, and there is one entry in the end that says how the second one failed.
theorem problem_entries_after_failures :
    let note (name : String) : Problem := { origin := .external name, path := "", description := "" }
    let o : Orchestrator := { runner := Runner.scripted [.fail "gone"] }
    let s : State := { channel := { capacity := 64 } }
    let start : Happening := .start "" { name := "m" }
    let history := [.visit <| .push <| note "x", start] ++ List.replicate 6 (.work ⟨1⟩ []) ++ start ::
      List.replicate 5 (.work ⟨2⟩ []) ++ [.work ⟨2⟩ [[.push <| note "y"], [.push <| note "z"]]]
    o.initial = .ok s ∧ s.Entries o history ∧ (s.afterAll o history).phase = .idle ∧
      (s.afterAll o history).shared.problems.entries = [note "x", note "y", note "z", {
        origin := .sanity
        path := "runner"
        description := "check run failed: check run failed: gone" }] := by
  intro note o s start history
  have h : o.initial = .ok s := State.initial_of_runner _
  exact ⟨h, problem_entries h history, by decide +kernel, by decide +kernel⟩

end Orchestrator

end ModelAudit

import ModelAudit.Proofs.Orchestrator.Flights
import ModelAudit.Proofs.Session.Waiting
import ModelAudit.Session.Interrupt

namespace ModelAudit

open Orchestrator (Closing completionsOf)

open Orchestrator.State (Aloft Landed)

namespace Session

namespace Awaited

-- Nobody can read the event any more that closes the run, and nobody has.
def Loses (a : Awaited) (run : RunId) : Prop :=
  ∃ r p event, a.waiting = .reading r ∧ a.state.orchestrator.channel.sent[p]? = some event ∧
    event.run = run ∧ event.closing? ≠ none ∧ r.next ≤ p ∧ p < a.state.orchestrator.channel.oldest

-- It was so at some moment.
def Missed (o : Orchestrator) (a : Awaited) (run : RunId) (history : List Happening) : Prop :=
  ∃ before, before <+: history ∧ (a.afterAll o before).Loses run

-- Whoever waits is interrupted only while a run is active.
def Timely (o : Orchestrator) (a : Awaited) (history : List Happening) : Prop :=
  ∀ before, before ++ [.interrupt] <+: history → ∀ r, (a.afterAll o before).waiting = .reading r →
    (a.afterAll o before).state.orchestrator.phase ≠ .idle

variable {o : Orchestrator} {a : Awaited} {n : Nat} {run : RunId} {missed : Prop}

section History

variable (o a) (history : List Happening) (h : Happening)

theorem afterAll_append (more : List Happening) :
    a.afterAll o (history ++ more) = (a.afterAll o history).afterAll o more :=
  List.foldl_append

theorem afterAll_concat : a.afterAll o (history ++ [h]) = (a.afterAll o history).after o h :=
  a.afterAll_append o history [h]

theorem missed_concat : a.Missed o run (history ++ [h]) ↔
    a.Missed o run history ∨ (a.afterAll o (history ++ [h])).Loses run := by
  simp only [Missed, List.prefix_concat_iff]
  constructor
  case mp =>
    rintro ⟨before, rfl | hb, hl⟩
    · exact .inr hl
    · exact .inl ⟨before, hb, hl⟩
  case mpr =>
    rintro (⟨before, hb, hl⟩ | hl)
    · exact ⟨before, .inr hb, hl⟩
    · exact ⟨_, .inl rfl, hl⟩

end History

theorem Timely.of_prefix {before history : List Happening} (ht : a.Timely o history)
    (hb : before <+: history) : a.Timely o before :=
  fun before' hb' => ht before' <| hb'.trans hb

-- A turn is no interrupt.
theorem Timely.turn {history : List Happening} (ht : a.Timely o history) (turn : Turn) :
    a.Timely o (history ++ [.turn turn]) := by
  intro before hb
  rcases List.prefix_concat_iff.mp hb with he | hb
  · cases (List.append_inj' he rfl).right
  · exact ht before hb

theorem Missed.of_loses {history : List Happening} (h : (a.afterAll o history).Loses run) :
    a.Missed o run history :=
  ⟨history, List.prefix_rfl, h⟩

-- How the run and somebody who waits for it have come along, if that event was missed and if it was not.
inductive Watches (n : Nat) (run : RunId) (missed : Prop) (s : Orchestrator.State) : Waiting → Prop
  | aloft {r} (ha : s.Aloft n run) (hm : ¬missed) (hl : n ≤ r.next)
    (hr : r.next ≤ s.channel.sent.length) : Watches n run missed s (.reading r)
  | ahead {r told event later} (h : s.Landed n run told event later)
    (hm : missed → told.length < s.channel.oldest) (hl : n ≤ r.next) (hr : r.next ≤ told.length) :
    Watches n run missed s (.reading r)
  | behind {r told event later} (h : s.Landed n run told event later) (hm : missed)
    (hr : told.length < r.next) : Watches n run missed s (.reading r)
  | heard {told event later closing} (h : s.Landed n run told event later) (hm : ¬missed)
    (hc : event.closing? = some closing) : Watches n run missed s (.ended closing.outcome)
  | misled {told event later other closing} (h : s.Landed n run told event later) (hm : missed)
    (ho : other ∈ later) (hc : other.closing? = some closing) :
    Watches n run missed s (.ended closing.outcome)

theorem not_loses_of_aloft (ha : a.state.orchestrator.Aloft n run) {r : Receiver}
    (hw : a.waiting = .reading r) (hl : n ≤ r.next) : ¬a.Loses run := by
  rintro ⟨r', p, event, hw', hp, _, hc, hr, _⟩
  cases hw.symm.trans hw'
  refine hc <| ha.quiet event <| List.mem_of_getElem? (i := p - n) ?_
  rw [List.getElem?_drop, Nat.add_sub_cancel' (Nat.le_trans hl hr), hp]

theorem not_loses_of_ended {x : Option Completion} (hw : a.waiting = .ended x) : ¬a.Loses run := by
  rintro ⟨_, _, _, hr, _⟩
  cases hw.symm.trans hr

-- There is only one event that closes the run.
theorem loses_iff_of_landed {told later : List RunEvent} {event : RunEvent}
    (h : a.state.orchestrator.Landed n run told event later) {r : Receiver}
    (hw : a.waiting = .reading r) (hl : n ≤ r.next) :
    a.Loses run ↔ r.next ≤ told.length ∧ told.length < a.state.orchestrator.channel.oldest := by
  constructor
  case mp =>
    rintro ⟨r', p, event', hw', hp, hrun, hc, hr, ho⟩
    cases hw.symm.trans hw'
    rcases Nat.lt_trichotomy p told.length with hlt | rfl | hlt
    · rw [h.sent, List.getElem?_append_left hlt] at hp
      refine absurd (h.quiet event' <| List.mem_of_getElem? (i := p - n) ?_) hc
      rw [List.getElem?_drop, Nat.add_sub_cancel' (Nat.le_trans hl hr), hp]
    · exact ⟨hr, ho⟩
    · have ⟨hlt, _⟩ := h.later event' <| h.mem_later_of_getElem? hlt hp
      exact absurd (hrun ▸ hlt) <| Nat.lt_irrefl _
  case mpr =>
    intro ⟨hr, ho⟩
    have ⟨_, hc⟩ := h.closing
    refine ⟨r, told.length, event, hw, by simp [h.sent], h.own, ?_, hr, ho⟩
    rw [hc]
    nofun

namespace Watches

variable {s s' : Orchestrator.State} {w : Waiting} {facts : List Orchestrator.Incident}
  {h : Orchestrator.Happening}

-- The work goes on, or another run is launched.
theorem turn (hw : Watches n run missed s w) (hc : s.lifecycle.Coherent facts) (ht : s.Turn o h s')
    (hcap : s'.channel.capacity = s.channel.capacity) : Watches n run missed s' w := by
  have hlen : s.channel.sent.length ≤ s'.channel.sent.length := ht.sent_extends.length_le
  have hold : s.channel.oldest ≤ s'.channel.oldest := by
    unfold Channel.oldest
    omega
  cases hw with
  | aloft ha hm hl hr =>
    rcases ha.turn hc ht with ha' | ⟨event, hl'⟩
    · exact .aloft ha' hm hl (Nat.le_trans hr hlen)
    · exact .ahead hl' (fun hm' => absurd hm' hm) hl hr
  | ahead hl hm hn hr =>
    have ⟨_, hl'⟩ := hl.turn hc ht
    exact .ahead hl' (fun hm' => Nat.lt_of_lt_of_le (hm hm') hold) hn hr
  | behind hl hm hr =>
    have ⟨_, hl'⟩ := hl.turn hc ht
    exact .behind hl' hm hr
  | heard hl hm hcl =>
    have ⟨_, hl'⟩ := hl.turn hc ht
    exact .heard hl' hm hcl
  | misled hl hm ho hcl =>
    have ⟨_, hl'⟩ := hl.turn hc ht
    exact .misled hl' hm (List.mem_append_left _ ho) hcl

end Watches

-- The reader gets on. It passes the event over only if that can be read no more.
theorem Watches.read (hw : Watches n run missed a.state.orchestrator a.waiting)
    (hm : a.Loses run → missed) :
    Watches n run missed a.state.orchestrator (a.waiting.read a.state.orchestrator.channel) := by
  generalize hr : a.waiting = w at hw
  cases hw with
  | @aloft r ha hn hl hle =>
    have hq := (List.drop_sublist_drop_left a.state.orchestrator.channel.sent hl).subset
    obtain ⟨r', he, hlt, hle'⟩ := Waiting.read_silent (fun event hm => ha.quiet event <| hq hm) hle
    rw [he]
    exact .aloft ha hn (Nat.le_trans hl hlt) hle'
  | @ahead r told event later hl hm' hn hle =>
    have hq := (List.drop_sublist_drop_left told hn).subset
    by_cases ho : told.length < a.state.orchestrator.channel.oldest
    case pos =>
      have hlag : r.next < a.state.orchestrator.channel.oldest := Nat.lt_of_le_of_lt hle ho
      rw [Waiting.read, Channel.receive_lagged hlag]
      exact .behind hl (hm <| (loses_iff_of_landed hl hr hn).mpr ⟨hle, ho⟩) ho
    case neg =>
      obtain ⟨closing, hc⟩ := hl.closing
      rcases Waiting.read_told (Nat.le_of_not_lt ho) hl.sent hc
        (fun event hm => hl.quiet event <| hq hm) hle with ⟨r', he, hlt, hle'⟩ | he
      · rw [he]
        exact .ahead hl hm' (Nat.le_trans hn <| Nat.le_of_lt hlt) hle'
      · rw [he]
        exact .heard hl (mt hm' ho) hc
  | @behind r told event later hl hm' hlt =>
    by_cases hlag : r.next < a.state.orchestrator.channel.oldest
    case pos =>
      rw [Waiting.read, Channel.receive_lagged hlag]
      exact .behind hl hm' (Nat.lt_trans hlt hlag)
    case neg =>
      cases he : a.state.orchestrator.channel.sent[r.next]?
      case none =>
        rw [Waiting.read, Channel.receive_nothing hlag he]
        exact .behind hl hm' hlt
      case some other =>
        cases hc : other.closing?
        case none =>
          rw [Waiting.read_value hlag he hc]
          exact .behind hl hm' (Nat.lt_succ_of_lt hlt)
        case some closing =>
          rw [Waiting.read_closing hlag he hc]
          refine .misled hl hm' ?_ hc
          exact hl.mem_later_of_getElem? hlt he
  | heard hl hm' hc => exact .heard hl hm' hc
  | misled hl hm' ho hc => exact .misled hl hm' ho hc

-- By now that event may be missed.
theorem Watches.look (hw : Watches n run missed a.state.orchestrator a.waiting) :
    Watches n run (missed ∨ a.Loses run) a.state.orchestrator a.waiting := by
  generalize hr : a.waiting = w at hw ⊢
  cases hw with
  | aloft ha hm hl hle => exact .aloft ha (not_or.mpr ⟨hm, not_loses_of_aloft ha hr hl⟩) hl hle
  | ahead hl hm hn hle =>
    refine .ahead hl ?_ hn hle
    rintro (hm' | hm')
    · exact hm hm'
    · exact (loses_iff_of_landed hl hr hn).mp hm' |>.right
  | behind hl hm hlt => exact .behind hl (.inl hm) hlt
  | heard hl hm hc => exact .heard hl (not_or.mpr ⟨hm, not_loses_of_ended hr⟩) hc
  | misled hl hm ho hc => exact .misled hl (.inl hm) ho hc

-- The events tell that the run has come to that, and to nothing else.
structure OutcomeOf (run : RunId) (sent : List RunEvent) (x : Option Completion) : Prop where
  completions : completionsOf run sent = x.toList
  cancelled   : .cancelled run ∈ sent ↔ x = none

theorem outcomeOf_of_fate {text : String} {facts : List Orchestrator.Incident}
    {endings : List (Ending (Except AuditError Unit))} {s : Orchestrator.State} {event : RunEvent}
    {closing : Closing} (hf : Orchestrator.Fate run text facts endings s)
    (hm : event ∈ s.channel.sent) (hr : event.run = run) (hc : event.closing? = some closing) :
    OutcomeOf run s.channel.sent closing.outcome := by
  cases event <;> cases hc
  case completed c =>
    have hm : c ∈ completionsOf run s.channel.sent :=
      Orchestrator.State.mem_completionsOf.mpr ⟨hm, hr⟩
    cases hf with
    | underway _ _ _ hn => simp [hn] at hm
    | cancelled _ _ hn => simp [hn] at hm
    | completed _ _ _ _ hn hs =>
      rw [hn, List.mem_singleton] at hm
      exact ⟨hm ▸ hn, iff_of_false hs nofun⟩
  case cancelled =>
    obtain rfl := hr
    cases hf with
    | underway _ _ _ _ hs => exact absurd hm hs
    | cancelled _ _ hn hs => exact ⟨hn, iff_of_true hs rfl⟩
    | completed _ _ _ _ _ hs => exact absurd hm hs

-- Somebody waits for the run that was launched last when those things had happened.
structure Follows (o : Orchestrator) (s₀ : Orchestrator.State) (before : List Orchestrator.Happening)
    (n : Nat) (run : RunId) (missed : Prop) (a : Awaited) : Prop where
  reached : ∃ history, a.state.orchestrator = s₀.afterAll o (before ++ history)
  watched : Watches n run missed a.state.orchestrator a.waiting

section Follows

variable {s₀ : Orchestrator.State} {before : List Orchestrator.Happening}

theorem Follows.coherent (h : o.initial = .ok s₀) (hf : a.Follows o s₀ before n run missed) :
    ∃ facts, a.state.orchestrator.lifecycle.Coherent facts := by
  obtain ⟨_, he⟩ := hf.reached
  exact ⟨_, he ▸ Orchestrator.State.coherent_of_initial h _⟩

theorem Follows.capacity_pos (h : o.initial = .ok s₀) (hf : a.Follows o s₀ before n run missed) :
    0 < a.state.orchestrator.channel.capacity := by
  obtain ⟨_, he⟩ := hf.reached
  rw [he, Orchestrator.State.capacity_afterAll]
  exact Orchestrator.State.capacity_pos_of_initial h

theorem Follows.orchestrator (h : o.initial = .ok s₀) (hf : a.Follows o s₀ before n run missed)
    (h' : Orchestrator.Happening) {a' : Awaited} (hw : a'.waiting = a.waiting)
    (hs : a'.state.orchestrator = a.state.orchestrator.after o h') :
    a'.Follows o s₀ before n run missed := by
  obtain ⟨history, he⟩ := hf.reached
  obtain ⟨_, hc⟩ := hf.coherent h
  constructor
  case reached =>
    refine ⟨history ++ [h'], ?_⟩
    rw [hs, he, ← List.append_assoc, Orchestrator.State.afterAll_concat]
  case watched =>
    rw [hw, hs]
    exact hf.watched.turn hc (Orchestrator.State.after_turn hc h') <|
      Orchestrator.State.capacity_after ..

theorem interrupt_of_reading {r : Receiver} (hw : a.waiting = .reading r) :
    a.interrupt = { a with state := (a.state.trigger .button).2 } := by
  rw [interrupt, hw]

theorem interrupt_of_ended {x : Option Completion} (hw : a.waiting = .ended x) : a.interrupt = a := by
  rw [interrupt, hw]

theorem Follows.after (h : o.initial = .ok s₀) (hf : a.Follows o s₀ before n run missed)
    (hm : a.Loses run → missed) (x : Happening) : (a.after o x).Follows o s₀ before n run missed := by
  cases x
  case turn turn =>
    cases turn
    case reader => exact ⟨hf.reached, hf.watched.read hm⟩
    case work run' visits => exact hf.orchestrator h (.work run' visits) rfl rfl
  case interrupt =>
    show a.interrupt.Follows o s₀ before n run missed
    cases hw : a.waiting
    case reading r =>
      rw [interrupt_of_reading hw]
      exact hf.orchestrator h (.start a.state.specText a.state.provider.current) rfl <|
        a.state.orchestrator_trigger .button
    case ended => rwa [interrupt_of_ended hw]

theorem Follows.look (hf : a.Follows o s₀ before n run missed) :
    a.Follows o s₀ before n run (missed ∨ a.Loses run) :=
  ⟨hf.reached, hf.watched.look⟩

theorem Follows.of_iff {missed' : Prop} (hi : missed ↔ missed') (hf : a.Follows o s₀ before n run missed) :
    a.Follows o s₀ before n run missed' :=
  propext hi ▸ hf

theorem follows_afterAll (h : o.initial = .ok s₀) (hf : a.Follows o s₀ before n run (a.Loses run))
    (history : List Happening) :
    (a.afterAll o history).Follows o s₀ before n run (a.Missed o run history) := by
  induction history using List.reverseRecOn
  case nil =>
    refine hf.of_iff ?_
    simp [Missed, afterAll]
  case append_singleton history x hi =>
    have hf := hi.after h Missed.of_loses x |>.look
    rw [← afterAll_concat] at hf
    exact hf.of_iff (a.missed_concat o history x).symm

end Follows

theorem orchestrator_begin (o : Orchestrator) (s : State) : (begin s .button).state.orchestrator =
    s.orchestrator.after o (.start s.specText s.provider.current) :=
  s.orchestrator_trigger .button

-- Somebody starts a run while none is active, and waits for it.
structure Begins (o : Orchestrator) (s₀ : Orchestrator.State) (before : List Orchestrator.Happening)
    (s : State) (run : RunId) : Prop where
  initial : o.initial = .ok s₀
  reached : s.orchestrator = s₀.afterAll o before
  started : (s.trigger .button).1 = .started run

namespace Begins

variable {s₀ : Orchestrator.State} {before : List Orchestrator.Happening} {s : State}

variable (hb : Begins o s₀ before s run)

include hb

theorem idle : s.orchestrator.phase = .idle ∧ run = ⟨s.orchestrator.launches + 1⟩ :=
  Orchestrator.State.idle_of_started (hb.started : (s.orchestrator.start _ _).1 = _)

theorem launches : s.orchestrator.Launches s.specText s.provider.current
    (begin s .button).state.orchestrator := by
  have hc := Orchestrator.State.coherent_of_initial hb.initial before
  rw [← hb.reached] at hc
  rw [orchestrator_begin o]
  exact Orchestrator.State.after_launches hc hb.idle.left s.specText s.provider.current

theorem follows : (begin s .button).Follows o s₀ (before ++ [.start s.specText s.provider.current])
    s.orchestrator.channel.sent.length run ((begin s .button).Loses run) := by
  have ha := Orchestrator.State.aloft_of_launches hb.launches
  rw [← hb.idle.right] at ha
  constructor
  case reached =>
    refine ⟨[], ?_⟩
    rw [List.append_nil, Orchestrator.State.afterAll_concat, ← hb.reached]
    exact orchestrator_begin o s
  case watched => exact .aloft ha (not_loses_of_aloft ha rfl <| Nat.le_refl _) (Nat.le_refl _) ha.start

theorem follows_afterAll (history : List Happening) : ((begin s .button).afterAll o history).Follows o s₀
    (before ++ [.start s.specText s.provider.current]) s.orchestrator.channel.sent.length run
    ((begin s .button).Missed o run history) :=
  Awaited.follows_afterAll hb.initial hb.follows history

-- What closes the run is what it has come to.
theorem outcomeOf (hf : a.Follows o s₀ (before ++ [.start s.specText s.provider.current]) n run missed)
    {event : RunEvent} {closing : Closing} (hm : event ∈ a.state.orchestrator.channel.sent)
    (hr : event.run = run) (hc : event.closing? = some closing) :
    OutcomeOf run a.state.orchestrator.channel.sent closing.outcome := by
  obtain ⟨history, he⟩ := hf.reached
  obtain ⟨hp, rfl⟩ := hb.idle
  rw [hb.reached] at hp hr hf ⊢
  have hfate := Orchestrator.State.fate_of_launch hb.initial before hp s.specText s.provider.current
  have hn := Orchestrator.State.not_entered_of_launch hb.initial before hp s.specText s.provider.current
  have hfate := Orchestrator.State.fate_afterAll hb.initial hfate hn history |>.left
  rw [← he] at hfate
  exact outcomeOf_of_fate hfate hm hr hc

section Timely

variable {history : List Happening}

-- As long as the interrupts come in time, the run remains the one that was launched last.
theorem launches_of_timely (ht : (begin s .button).Timely o history) :
    ((begin s .button).afterAll o history).state.orchestrator.launches = run.number := by
  induction history using List.reverseRecOn
  case nil => exact hb.launches.launches.trans <| by rw [hb.idle.right]
  case append_singleton history x hi =>
    have hi := hi <| ht.of_prefix <| List.prefix_append ..
    have ⟨_, hc⟩ := hb.follows_afterAll history |>.coherent hb.initial
    rw [afterAll_concat]
    generalize hw : (begin s .button).afterAll o history = a at hi hc
    cases x
    case turn turn =>
      cases turn
      case reader => exact hi
      case work run' visits =>
        have hturn := Orchestrator.State.after_turn (o := o) hc (.work run' visits)
        exact (hturn.launches_eq nofun).trans hi
    case interrupt =>
      show a.interrupt.state.orchestrator.launches = run.number
      cases hr : a.waiting
      case ended => rwa [interrupt_of_ended hr]
      case reading r =>
        have hp := ht history List.prefix_rfl r (hw ▸ hr)
        rw [hw] at hp
        rw [interrupt_of_reading hr, a.state.orchestrator_trigger]
        have hturn := Orchestrator.State.after_turn (o := o) hc
          (.start a.state.specText a.state.provider.current)
        exact (hturn.launches_eq fun _ _ _ => hp).trans hi

theorem not_loses_of_timely (ht : (begin s .button).Timely o history) :
    ¬((begin s .button).afterAll o history).Loses run := by
  have hf := hb.follows_afterAll history
  have hcap := hf.capacity_pos hb.initial
  have hlaunches := hb.launches_of_timely ht
  have hw := hf.watched
  generalize (begin s .button).afterAll o history = a at hw hcap hlaunches ⊢
  generalize hr : a.waiting = w at hw
  cases hw with
  | aloft ha _ hl => exact not_loses_of_aloft ha hr hl
  | ahead hl _ hn =>
    obtain rfl := hl.later_eq_nil hlaunches
    rw [loses_iff_of_landed hl hr hn]
    exact fun h => Nat.not_lt_of_le (Channel.oldest_le_of_append hcap hl.sent) h.right
  | behind hl _ hlt =>
    rw [loses_iff_of_landed hl hr <| Nat.le_trans hl.start <| Nat.le_of_lt hlt]
    exact fun h => Nat.not_lt_of_le h.left hlt
  | heard | misled => exact not_loses_of_ended hr

theorem not_missed_of_timely (ht : (begin s .button).Timely o history) :
    ¬(begin s .button).Missed o run history :=
  fun ⟨_, hp, hl⟩ => hb.not_loses_of_timely (ht.of_prefix hp) hl

theorem tasks_of_timely (ht : (begin s .button).Timely o history) :
    ((begin s .button).afterAll o history).state.orchestrator.tasks = [] ∨
      ∃ t, ((begin s .button).afterAll o history).state.orchestrator.tasks = [t] ∧ t.run = run := by
  have ⟨_, hc⟩ := hb.follows_afterAll history |>.coherent hb.initial
  have hlaunches := hb.launches_of_timely ht
  cases hc.flight with
  | grounded _ _ htasks => exact .inl htasks
  | @airborne _ t _ _ htasks =>
    have hm : t ∈ ((begin s .button).afterAll o history).state.orchestrator.tasks :=
      List.mem_of_mem_head? <| congrArg List.head? htasks
    have hr := Orchestrator.State.run_of_mem_tasks hc hm
    exact .inr ⟨t, htasks, hr.trans <| by rw [hlaunches]⟩

-- All the work that is left is done in so many turns.
theorem exists_turns (ho : o.RunsPromptly) (ht : (begin s .button).Timely o history) :
    ∃ turns : List Turn,
      (begin s .button).Timely o (history ++ turns.map .turn) ∧
      ((begin s .button).afterAll o (history ++ turns.map .turn)).waiting =
        ((begin s .button).afterAll o history).waiting ∧
      ((begin s .button).afterAll o (history ++ turns.map .turn)).state.orchestrator =
        ((begin s .button).afterAll o history).state.orchestrator.settleAll o ∧
      ((begin s .button).afterAll o (history ++ turns.map .turn)).state.orchestrator.tasks = [] := by
  induction hk : ((begin s .button).afterAll o history).state.orchestrator.stepsLeft o run
    using Nat.strong_induction_on generalizing history
  case h k hi =>
    rcases hb.tasks_of_timely ht with hn | ⟨t, htasks, hr⟩
    · refine ⟨[], ?_⟩
      rw [List.map_nil, List.append_nil]
      exact ⟨ht, rfl, (Orchestrator.State.settleAll_of_nil hn).symm, hn⟩
    · have hf := hb.follows_afterAll history
      obtain ⟨_, hc⟩ := hf.coherent hb.initial
      obtain ⟨_, he⟩ := hf.reached
      have hw : ¬((begin s .button).afterAll o history).state.orchestrator.Waits run :=
        Orchestrator.State.not_waits_of_ungated <|
          he ▸ Orchestrator.State.ungated_of_initial hb.initial ho _
      have ht? := hr ▸ Orchestrator.State.task?_of_tasks htasks
      have hlt := Orchestrator.State.stepsLeft_after_lt (o := o) ht? hw []
      have ha : ((begin s .button).afterAll o (history ++ [.turn (.work run [])])).state.orchestrator =
          ((begin s .button).afterAll o history).state.orchestrator.after o (.work run []) := by
        rw [afterAll_concat]
        rfl
      have hwait : ((begin s .button).afterAll o (history ++ [.turn (.work run [])])).waiting =
          ((begin s .button).afterAll o history).waiting := by
        rw [afterAll_concat]
        rfl
      rw [← ha, hk] at hlt
      obtain ⟨turns, ht', hw', hs', hn⟩ := hi _ hlt (ht.turn (.work run [])) rfl
      refine ⟨.work run [] :: turns, ?_⟩
      rw [List.append_assoc] at ht' hw' hs' hn
      refine ⟨ht', hw'.trans hwait, hs'.trans ?_, hn⟩
      rw [ha, Orchestrator.State.settleAll_after hc run]

end Timely

end Begins

-- What is known of somebody who has begun to wait for a run, when so many things have happened.
structure Learns (o : Orchestrator) (begun : Awaited) (run : RunId) (history : List Happening)
    (a : Awaited) : Prop where
  heard    : ¬begun.Missed o run history → ∀ x, a.waiting = .ended x →
    OutcomeOf run a.state.orchestrator.channel.sent x
  misled   : begun.Missed o run history → ∀ x, a.waiting = .ended x →
    ∃ event ∈ a.state.orchestrator.channel.sent,
      run.number < event.run.number ∧ event.closing?.map Closing.outcome = some x
  -- The run is over, and the reader reads on.
  returns  : ¬begun.Missed o run history → a.state.orchestrator.task? run = none →
    ∃ x, a.waiting.readAll a.state.orchestrator.channel = .ended x ∧
      OutcomeOf run a.state.orchestrator.channel.sent x
  timely   : begun.Timely o history → ¬begun.Missed o run history
  finishes : begun.Timely o history → o.RunsPromptly →
    ∃ x, (a.finish o).waiting = .ended x ∧
      OutcomeOf run (a.finish o).state.orchestrator.channel.sent x

namespace Begins

variable {s₀ : Orchestrator.State} {before : List Orchestrator.Happening} {s : State}
  {history : List Happening}

variable (hb : Begins o s₀ before s run)

include hb

theorem heard (hm : ¬(begin s .button).Missed o run history) {x : Option Completion}
    (hx : ((begin s .button).afterAll o history).waiting = .ended x) :
    OutcomeOf run ((begin s .button).afterAll o history).state.orchestrator.channel.sent x := by
  have hf := hb.follows_afterAll history
  have hw := hf.watched
  rw [hx] at hw
  cases hw with
  | heard hl _ hc =>
    refine hb.outcomeOf hf ?_ hl.own hc
    rw [hl.sent]
    exact List.mem_append_right _ List.mem_cons_self
  | misled _ hm' => exact absurd hm' hm

theorem misled (hm : (begin s .button).Missed o run history) {x : Option Completion}
    (hx : ((begin s .button).afterAll o history).waiting = .ended x) :
    ∃ event ∈ ((begin s .button).afterAll o history).state.orchestrator.channel.sent,
      run.number < event.run.number ∧ event.closing?.map Closing.outcome = some x := by
  have hw := hb.follows_afterAll history |>.watched
  rw [hx] at hw
  cases hw with
  | heard _ hm' => exact absurd hm hm'
  | @misled told event later other closing hl _ ho hc =>
    refine ⟨other, ?_, hl.later other ho |>.left, by rw [hc]; rfl⟩
    rw [hl.sent]
    exact List.mem_append_right _ <| List.mem_cons_of_mem _ ho

theorem returns (hm : ¬(begin s .button).Missed o run history)
    (hn : ((begin s .button).afterAll o history).state.orchestrator.task? run = none) :
    ∃ x, ((begin s .button).afterAll o history).waiting.readAll
        ((begin s .button).afterAll o history).state.orchestrator.channel = .ended x ∧
      OutcomeOf run ((begin s .button).afterAll o history).state.orchestrator.channel.sent x := by
  cases hr : ((begin s .button).afterAll o history).waiting
  case ended x => exact ⟨x, Waiting.readAll_ended .., hb.heard hm hr⟩
  case reading r =>
    have hl := mt Missed.of_loses hm
    have hf := hb.follows_afterAll history
    have hw := hf.watched
    rw [hr] at hw
    cases hw with
    | aloft ha =>
      obtain ⟨t, ht, htr⟩ := ha.tasks
      rw [← htr, Orchestrator.State.task?_of_tasks ht] at hn
      cases hn
    | behind _ hm' => exact absurd hm' hm
    | @ahead _ told event later h _ hn' hle =>
      have ho := Nat.le_of_not_lt fun ho => hl <| (loses_iff_of_landed h hr hn').mpr ⟨hle, ho⟩
      have hq := (List.drop_sublist_drop_left told hn').subset
      obtain ⟨closing, hc⟩ := h.closing
      refine ⟨_, Waiting.readAll_told ho h.sent hc (fun event hm => h.quiet event <| hq hm) hle, ?_⟩
      refine hb.outcomeOf hf ?_ h.own hc
      rw [h.sent]
      exact List.mem_append_right _ List.mem_cons_self

theorem finishes (ht : (begin s .button).Timely o history) (ho : o.RunsPromptly) :
    ∃ x, (((begin s .button).afterAll o history).finish o).waiting = .ended x ∧
      OutcomeOf run
        (((begin s .button).afterAll o history).finish o).state.orchestrator.channel.sent x := by
  obtain ⟨turns, ht', hw, hs, hn⟩ := hb.exists_turns ho ht
  have hg : ((begin s .button).afterAll o (history ++ turns.map .turn)).state.orchestrator.task? run =
      none := by
    simp [Orchestrator.State.task?, hn]
  have hret := hb.returns (hb.not_missed_of_timely ht') hg
  rwa [hw, hs] at hret

end Begins

end Awaited

open Awaited (Learns Begins)

-- Whoever waits for a run ends with what that run has come to, unless the event that says so was missed,
-- and then with what a later run has come to. It cannot be missed if no interrupt comes after the end of
-- the run.
theorem interrupted_wait {o : Orchestrator} {s₀ : Orchestrator.State} {s : State} {run : RunId}
    {before : List Orchestrator.Happening} (h : o.initial = .ok s₀)
    (hr : s.orchestrator = s₀.afterAll o before) (hs : (s.trigger .button).1 = .started run)
    (history : List Awaited.Happening) :
    let begun := Awaited.begin s .button
    Learns o begun run history (begun.afterAll o history) :=
  have hb : Begins o s₀ before s run := ⟨h, hr, hs⟩
  { heard    := fun hm _ => hb.heard hm
    misled   := fun hm _ => hb.misled hm
    returns  := hb.returns
    timely   := hb.not_missed_of_timely
    finishes := hb.finishes }

-- The run whose completion the waiting has ended with, if it has ended.
def Awaited.outcome? (a : Awaited) : Option (Option RunId) :=
  match a.waiting with
  | .reading _ => none
  | .ended completion => some <| completion.map (·.run)

-- So many steps of a run in a row, and so many looks of the reader.
def Awaited.steps (run : RunId) (n : Nat) : List Awaited.Happening :=
  List.replicate n <| .turn <| .work run []

def Awaited.looks (n : Nat) : List Awaited.Happening :=
  List.replicate n <| .turn .reader

-- An interrupt in time, with a channel that keeps one event.
theorem interrupted_wait_of_timely :
    let o : Orchestrator := { runner := Catalog.builtin.runner, config := { eventCapacity := 1 } }
    let s : State :=
      { orchestrator := { channel := { capacity := 1 } }, provider := { current := { name := "m" } },
        specText := "" }
    let begun := Awaited.begin s .button
    let a := begun.afterAll o (.interrupt :: Awaited.steps ⟨1⟩ 5 ++ Awaited.looks 2)
    o.initial = .ok s.orchestrator ∧ (s.trigger .button).1 = .started ⟨1⟩ ∧
      Learns o begun ⟨1⟩ (.interrupt :: Awaited.steps ⟨1⟩ 5 ++ Awaited.looks 2) a ∧
        a.outcome? = some none := by
  intro o s begun a
  have h : o.initial = .ok s.orchestrator := rfl
  have hs : (s.trigger .button).1 = .started ⟨1⟩ := rfl
  have hr : s.orchestrator = s.orchestrator.afterAll o [] := rfl
  exact ⟨h, hs, interrupted_wait h hr hs _, by decide +kernel⟩

-- An interrupt after the last step of a run, before the reader has looked. The waiting for the run ends with
-- the completion of another one, whether the run has completed or was cancelled, or it ends as if the run
-- had been cancelled although it has completed.
theorem ended_by_another_run :
    let o : Orchestrator := { runner := Catalog.builtin.runner, config := { eventCapacity := 1 } }
    let s : State :=
      { orchestrator := { channel := { capacity := 1 } }, provider := { current := { name := "m" } },
        specText := "" }
    let begun := Awaited.begin s .button
    let a := begun.afterAll o (Awaited.steps ⟨1⟩ 5 ++ .interrupt :: Awaited.steps ⟨2⟩ 5 ++ Awaited.looks 3)
    let a' := begun.afterAll o
      (.interrupt :: Awaited.steps ⟨1⟩ 5 ++ .interrupt :: Awaited.steps ⟨2⟩ 5 ++ Awaited.looks 3)
    let a'' := begun.afterAll o
      (Awaited.steps ⟨1⟩ 5 ++ .interrupt :: .interrupt :: Awaited.steps ⟨2⟩ 5 ++ Awaited.looks 3)
    (a.outcome? = some (some ⟨2⟩) ∧
        (completionsOf ⟨1⟩ a.state.orchestrator.channel.sent).length = 1) ∧
      (a'.outcome? = some (some ⟨2⟩) ∧ .cancelled ⟨1⟩ ∈ a'.state.orchestrator.channel.sent) ∧
      (a''.outcome? = some none ∧
        (completionsOf ⟨1⟩ a''.state.orchestrator.channel.sent).length = 1) := by
  decide +kernel

end Session

end ModelAudit

import ModelAudit.Proofs.Orchestrator.Undisturbed
import ModelAudit.Session.Await

namespace ModelAudit

open Orchestrator (Closing Continues)

namespace Channel

theorem roundUp_pos {n fuel power : Nat} (h : 0 < power) : 0 < roundUp n fuel power := by
  induction fuel generalizing power
  case zero => exact h
  case succ fuel hi =>
    unfold roundUp
    split
    · exact h
    · exact hi <| Nat.mul_pos Nat.two_pos h

theorem capacity_pos_of_create {α : Type} {capacity : Nat} {c : Channel α}
    (h : create capacity = .ok c) : 0 < c.capacity := by
  simp only [create] at h
  split at h
  · cases h
  · split at h
    · cases h
    · split at h
      · cases h
      · cases h
        exact roundUp_pos Nat.one_pos

end Channel

namespace Orchestrator.State

variable {o : Orchestrator} {s s' s₀ : State} {t : Task} {run : RunId} {visits : Visits}
  {facts : List Incident}

theorem capacity_pos_of_initial (h : o.initial = .ok s₀) : 0 < s₀.channel.capacity := by
  unfold initial at h
  cases hc : (Channel.create (max 1 o.config.eventCapacity) : Except _ (Channel RunEvent)) with
  | error => rw [hc] at h; cases h
  | ok c =>
    rw [hc] at h
    cases h
    exact Channel.capacity_pos_of_create hc

theorem capacity_start (s : State) (text : String) (document : Document) :
    (s.start text document).2.channel.capacity = s.channel.capacity := by
  simp only [start]
  split <;> rfl

theorem capacity_of_step? (h : s.step? o visits t = some s') :
    s'.channel.capacity = s.channel.capacity := by
  cases hs : t.stage <;> simp only [step?, hs] at h
  case launched => cases h; rfl
  case cleared => cases ht : t.spec <;> rw [ht] at h <;> cases h <;> rfl
  case checking work records =>
    cases work <;> simp only [work?] at h
    case done result =>
      rcases result with e | _
      case error => cases e <;> cases h <;> rfl
      case ok => cases h; rfl
    case press next => cases h; exact (s.toStage t.run (.checking next records)).capacity_start ..
    case gate =>
      split at h
      · cases h; rfl
      · split at h <;> cases h; rfl
    all_goals cases h; rfl
  case ended => cases h; rfl
  case settled outcome =>
    cases h
    simp only [finish]
    split
    case isFalse => rfl
    case isTrue => cases outcome <;> rfl

-- The channel keeps as many events as in the beginning.
theorem capacity_after (o : Orchestrator) (s : State) (h : Happening) :
    (s.after o h).channel.capacity = s.channel.capacity := by
  cases h
  case start text document => exact s.capacity_start text document
  case work run visits =>
    rw [after]
    cases ha : s.advance? o visits run
    case none => rfl
    case some s' =>
      obtain ⟨_, _, hs⟩ := Option.bind_eq_some_iff.mp ha
      exact capacity_of_step? hs
  case abandon => rw [after, abandon]; split <;> rfl
  all_goals rfl

theorem capacity_afterAll (o : Orchestrator) (s : State) (history : List Happening) :
    (s.afterAll o history).channel.capacity = s.channel.capacity := by
  induction history generalizing s
  case nil => rfl
  case cons h history hi => exact (hi (s.after o h)).trans <| s.capacity_after o h

section Settle

theorem settle_of_none (h : s.advance? o [] run = none) : s.settle o run = s := by
  rw [settle]
  split
  · rfl
  · cases h.symm.trans ‹_›

theorem settle_of_some (h : s.advance? o [] run = some s') : s.settle o run = s'.settle o run := by
  rw [settle]
  split
  · cases h.symm.trans ‹_›
  · cases h.symm.trans ‹_›
    rfl

theorem advance?_of_tasks (ht : s.tasks = []) (run : RunId) : s.advance? o visits run = none := by
  simp [advance?, task?, ht]

theorem after_work_of_nil (ht : s.tasks = []) (run : RunId) : s.after o (.work run visits) = s := by
  rw [after, advance?_of_tasks ht]
  rfl

theorem settleAll_of_nil (ht : s.tasks = []) : s.settleAll o = s := by
  simp [settleAll, ht]

-- When a run is in flight, or none, going on with all the work is going on with that run.
theorem settleAll_eq_settle (hl : s.tasks = [] ∨ ∃ t, s.tasks = [t] ∧ t.run = run) :
    s.settleAll o = s.settle o run := by
  rcases hl with ht | ⟨t, ht, rfl⟩
  · rw [settleAll_of_nil ht, settle_of_none <| advance?_of_tasks ht run]
  · simp [settleAll, ht]

-- A step of the work is taken sooner or later.
theorem settleAll_after (hc : s.lifecycle.Coherent facts) (run : RunId) :
    (s.after o (.work run [])).settleAll o = s.settleAll o := by
  rw [after]
  cases ha : s.advance? o [] run with
  | none => rfl
  | some s' =>
    have hturn := after_turn (o := o) hc (.work run [])
    rw [after, ha, Option.getD_some] at hturn
    obtain ⟨t, ht, _⟩ := Option.bind_eq_some_iff.mp ha
    obtain rfl := run_of_task? ht
    obtain ⟨_, _, _, htasks, _⟩ := hc.flight.airborne_of_task? ht
    have htasks' : s'.tasks = [] ∨ ∃ t', s'.tasks = [t'] ∧ t'.run = t.run := by
      generalize hh : Happening.work t.run [] = h at hturn
      cases hturn with
      | aside hw => cases (hw _ _ hh.symm).symm.trans ha
      | launch => cases hh
      | go ht' _ _ hts =>
        obtain rfl := List.singleton_inj.mp <| htasks.symm.trans ht'
        exact .inr ⟨_, hts, rfl⟩
      | close ht' _ hg => exact .inl <| tasks_finish hg ht'
    rw [Option.getD_some, settleAll_eq_settle (.inr ⟨t, htasks, rfl⟩), settle_of_some ha,
      settleAll_eq_settle htasks']

end Settle

end Orchestrator.State

-- What a run has come to for somebody who waits for it.
def Orchestrator.Closing.outcome : Orchestrator.Closing → Option Completion
  | completed completion => some completion
  | cancelled => none

namespace Channel

variable {c : Channel RunEvent} {r : Receiver}

-- The latest event is always kept.
theorem oldest_le_of_append {told : List RunEvent} {event : RunEvent} (hc : 0 < c.capacity)
    (hs : c.sent = told ++ [event]) : c.oldest ≤ told.length := by
  have hlen : c.sent.length = told.length + 1 := by simp [hs]
  unfold oldest
  omega

theorem receive_lagged (h : r.next < c.oldest) :
    c.receive r = (.lagged (c.oldest - r.next), ⟨c.oldest⟩) :=
  if_pos h

theorem receive_value {event : RunEvent} (h : ¬r.next < c.oldest) (he : c.sent[r.next]? = some event) :
    c.receive r = (.value event, ⟨r.next + 1⟩) := by
  rw [receive, if_neg h, he]

theorem receive_nothing (h : ¬r.next < c.oldest) (he : c.sent[r.next]? = none) :
    c.receive r = (.nothing, r) := by
  rw [receive, if_neg h, he]

end Channel

namespace Waiting

variable {c : Channel RunEvent} {r : Receiver} {told later : List RunEvent}

theorem readTimes_ended (c : Channel RunEvent) (n : Nat) (x : Option Completion) :
    (ended x).readTimes c n = ended x := by
  induction n with
  | zero => rfl
  | succ n hi => exact hi

theorem mem_drop_of_getElem? {α : Type} {xs : List α} {n : Nat} {x : α} (h : xs[n]? = some x) :
    x ∈ xs.drop n :=
  List.mem_of_getElem? (i := 0) <| by simpa using h

theorem read_value {event : RunEvent} (hl : ¬r.next < c.oldest) (he : c.sent[r.next]? = some event)
    (hn : event.closing? = none) : (reading r).read c = reading ⟨r.next + 1⟩ := by
  rw [read, c.receive_value hl he]
  cases event <;> first | rfl | cases hn

-- A reader that is told nothing that closes a run reads on, no further than to the end of that.
theorem read_silent (hn : ∀ event ∈ c.sent.drop r.next, event.closing? = none)
    (hr : r.next ≤ c.sent.length) :
    ∃ r', (reading r).read c = reading r' ∧ r.next ≤ r'.next ∧ r'.next ≤ c.sent.length := by
  by_cases hl : r.next < c.oldest
  case pos =>
    refine ⟨⟨c.oldest⟩, by rw [read, c.receive_lagged hl], Nat.le_of_lt hl, Nat.sub_le ..⟩
  case neg =>
    cases he : c.sent[r.next]? with
    | none => exact ⟨r, by rw [read, c.receive_nothing hl he], Nat.le_refl _, hr⟩
    | some event =>
      have ⟨hlt, _⟩ := List.getElem?_eq_some_iff.mp he
      exact ⟨_, read_value hl he <| hn event <| mem_drop_of_getElem? he, Nat.le_succ _, hlt⟩

theorem read_closing {event : RunEvent} {closing : Closing} (hl : ¬r.next < c.oldest)
    (he : c.sent[r.next]? = some event) (hc : event.closing? = some closing) :
    (reading r).read c = ended closing.outcome := by
  rw [read, c.receive_value hl he]
  cases event <;> cases hc <;> rfl

-- Before the end of a run a reader that has not got there reads on as well, or gets to it. What comes
-- later makes no difference as long as that event is kept.
theorem read_told {event : RunEvent} {closing : Closing} (ho : c.oldest ≤ told.length)
    (hs : c.sent = told ++ event :: later) (hc : event.closing? = some closing)
    (hn : ∀ event ∈ told.drop r.next, event.closing? = none) (hr : r.next ≤ told.length) :
    (∃ r', (reading r).read c = reading r' ∧ r.next < r'.next ∧ r'.next ≤ told.length) ∨
      (reading r).read c = ended closing.outcome := by
  by_cases hl : r.next < c.oldest
  case pos => exact .inl ⟨⟨c.oldest⟩, by rw [read, c.receive_lagged hl], hl, ho⟩
  case neg =>
    rcases Nat.lt_or_eq_of_le hr with hlt | he
    · have hget : told[r.next]? = some told[r.next] := List.getElem?_eq_getElem hlt
      have he : c.sent[r.next]? = some told[r.next] := by rwa [hs, List.getElem?_append_left hlt]
      have hn := hn _ <| mem_drop_of_getElem? hget
      exact .inl ⟨_, read_value hl he hn, Nat.lt_succ_self _, hlt⟩
    · have hget : c.sent[r.next]? = some event := by simp [hs, he]
      exact .inr <| read_closing hl hget hc

theorem readTimes_told {event : RunEvent} {closing : Closing} (ho : c.oldest ≤ told.length)
    (hs : c.sent = told ++ event :: later) (hc : event.closing? = some closing)
    (hn : ∀ event ∈ told.drop r.next, event.closing? = none) (hr : r.next ≤ told.length) {n : Nat}
    (hlt : told.length - r.next < n) : (reading r).readTimes c n = ended closing.outcome := by
  induction n generalizing r with
  | zero => exact absurd hlt <| Nat.not_lt_zero _
  | succ n hi =>
    rw [readTimes]
    rcases read_told ho hs hc hn hr with ⟨r', he, hlt', hr'⟩ | he
    · have hsub := (List.drop_sublist_drop_left told <| Nat.le_of_lt hlt').subset
      rw [he]
      exact hi (fun event hm => hn event <| hsub hm) hr' <| by omega
    · rw [he, readTimes_ended]

-- Whatever the reader has missed, it gets to the event that ends the run.
theorem readAll_told {event : RunEvent} {closing : Closing} (ho : c.oldest ≤ told.length)
    (hs : c.sent = told ++ event :: later) (hc : event.closing? = some closing)
    (hn : ∀ event ∈ told.drop r.next, event.closing? = none) (hr : r.next ≤ told.length) :
    (reading r).readAll c = ended closing.outcome :=
  readTimes_told ho hs hc hn hr <| by simp [hs]; omega

theorem readAll_ended (c : Channel RunEvent) (x : Option Completion) : (ended x).readAll c = ended x :=
  readTimes_ended ..

end Waiting

theorem Orchestrator.Continues.silent {before sent : List RunEvent} {n : Nat} (h : Continues before sent)
    (hl : before.length ≤ n) : ∀ event ∈ sent.drop n, event.closing? = none := by
  obtain ⟨events, rfl, hn⟩ := h
  rw [List.drop_append, List.drop_eq_nil_of_le hl, List.nil_append]
  exact fun event hm => hn event <| List.mem_of_mem_drop hm

namespace Orchestrator.State

-- How the run that was launched in the second state has come along, and whoever reads its events.
inductive Followed (o : Orchestrator) (s s₁ : State) (text : String) (document : Document) : Waiting → Prop
  | underway {t r} (hu : s.Underway o s₁ text document t) (hl : s₁.channel.sent.length ≤ r.next)
    (hr : r.next ≤ s.channel.sent.length) : Followed o s s₁ text document (.reading r)
  | left {c r told} (h : s.Leaves o s₁ text document c) (ht : Continues s₁.channel.sent told)
    (hs : s.channel.sent = told ++ [.completed c]) (hl : s₁.channel.sent.length ≤ r.next)
    (hr : r.next ≤ told.length) : Followed o s s₁ text document (.reading r)
  | ended {c} (h : s.Leaves o s₁ text document c) : Followed o s s₁ text document (.ended (some c))

namespace Followed

variable {o : Orchestrator} {s s₀ s₁ : State} {text : String} {document : Document}
  {w : Waiting} {history : List Happening}

theorem launch (h : o.initial = .ok s₀) (hp : (s₀.afterAll o history).phase = .idle) (text : String)
    (document : Document) : ((s₀.afterAll o history).after o (.start text document)).Followed o
      (s₀.afterAll o history) text document (.reading (s₀.afterAll o history).channel.subscribe) := by
  have hcoh := coherent_of_initial h history
  have hsent := (after_turn (o := o) hcoh (.start text document)).sent_extends
  exact .underway (underway_of_launch hcoh hp text document) (Nat.le_refl _) hsent.length_le

theorem read (hf : s.Followed o s₁ text document w) (hc : 0 < s.channel.capacity) :
    s.Followed o s₁ text document (w.read s.channel) := by
  cases hf with
  | underway hu hl hr =>
    obtain ⟨r', he, hlt, hr'⟩ := Waiting.read_silent (hu.told.silent hl) hr
    rw [he]
    exact .underway hu (hl.trans hlt) hr'
  | left h ht hs hl hr =>
    have ho := Channel.oldest_le_of_append hc hs
    rcases Waiting.read_told ho hs rfl (ht.silent hl) hr with ⟨r', he, hlt, hr'⟩ | he
    · rw [he]
      exact .left h ht hs (hl.trans <| Nat.le_of_lt hlt) hr'
    · rw [he]
      exact .ended h
  | ended h => exact .ended h

theorem work (h : o.initial = .ok s₀) (ho : o.RunsPromptly)
    (hf : (s₀.afterAll o history).Followed o s₁ text document w) (run : RunId) :
    ((s₀.afterAll o history).after o (.work run [])).Followed o s₁ text document w := by
  have hcoh := coherent_of_initial h history
  have hint := interruptible_of_initial h history |>.left
  have hsent := (after_turn (o := o) hcoh (.work run [])).sent_extends
  cases hf with
  | underway hu hl hr =>
    rcases hu.after ho hcoh hint (h := .work run []) rfl with ⟨t', hu'⟩ | ⟨hw, hs, hg⟩
    · exact .underway hu' hl <| hr.trans hsent.length_le
    · obtain ⟨c, hsent, hleaves⟩ := leaves_of_publish h hu hs hg
      rw [hw]
      exact .left hleaves hu.told hsent hl hr
  | left hleaves ht hs hl hr =>
    rw [after_work_of_nil hleaves.tasks]
    exact .left hleaves ht hs hl hr
  | ended hleaves =>
    rw [after_work_of_nil hleaves.tasks]
    exact .ended hleaves

-- When all the work is done, the reader gets to the completion that the run has come to.
theorem settleAll (h : o.initial = .ok s₀) (ho : o.RunsPromptly)
    (hf : (s₀.afterAll o history).Followed o s₁ text document w) :
    ∃ c, ((s₀.afterAll o history).settleAll o).Leaves o s₁ text document c ∧
      w.readAll ((s₀.afterAll o history).settleAll o).channel = .ended (some c) := by
  induction hk : (s₀.afterAll o history).stepsLeft o ⟨s₁.launches + 1⟩ using Nat.strong_induction_on
    generalizing history
  case h k hi =>
    cases hf with
    | left hleaves ht hs hl hr =>
      rw [settleAll_of_nil hleaves.tasks]
      have hc := capacity_afterAll o s₀ history ▸ capacity_pos_of_initial h
      have ho := Channel.oldest_le_of_append hc hs
      exact ⟨_, hleaves, Waiting.readAll_told ho hs rfl (ht.silent hl) hr⟩
    | ended hleaves =>
      rw [settleAll_of_nil hleaves.tasks]
      exact ⟨_, hleaves, Waiting.readAll_ended ..⟩
    | underway hu hl hr =>
      -- The run has fewer steps left after the next one, and that makes no difference in the end.
      let run : RunId := ⟨s₁.launches + 1⟩
      have ht : (s₀.afterAll o history).task? run = some _ := hu.carries.run ▸ task?_of_tasks hu.tasks
      have hlt := stepsLeft_after_lt (o := o) ht (hu.not_waits run) []
      have hf := work h ho (.underway hu hl hr) run
      rw [← settleAll_after (coherent_of_initial h history) run]
      rw [← afterAll_concat] at hlt hf ⊢
      exact hi _ (hk ▸ hlt) hf rfl

end Followed

end Orchestrator.State

namespace Session

open Orchestrator.State (Followed)

-- Nobody else comes in between.
def Turn.Alone : Turn → Prop
  | .reader => True
  | .work _ visits => visits = []

namespace Awaited

-- Turns one after the other.
def takeAll (o : Orchestrator) (a : Awaited) (turns : List Turn) : Awaited :=
  turns.foldl (take o) a

-- Somebody waits for the run that was launched in the given state.
structure Attends (o : Orchestrator) (s₀ s₁ : Orchestrator.State) (text : String) (document : Document)
    (a : Awaited) : Prop where
  reached  : ∃ history, a.state.orchestrator = s₀.afterAll o history
  followed : a.state.orchestrator.Followed o s₁ text document a.waiting

variable {o : Orchestrator} {s₀ s₁ : Orchestrator.State} {text : String} {document : Document}
  {a : Awaited} {turn : Turn}

theorem Attends.take (h : o.initial = .ok s₀) (ho : o.RunsPromptly)
    (ha : a.Attends o s₀ s₁ text document) (ht : turn.Alone) :
    (a.take o turn).Attends o s₀ s₁ text document := by
  obtain ⟨history, he⟩ := ha.reached
  have hf := ha.followed
  cases turn with
  | reader =>
    refine ⟨⟨history, he⟩, hf.read ?_⟩
    rw [he, Orchestrator.State.capacity_afterAll]
    exact Orchestrator.State.capacity_pos_of_initial h
  | work run visits =>
    obtain rfl : visits = [] := ht
    rw [he] at hf
    refine ⟨⟨history ++ [.work run []], ?_⟩, ?_⟩
    · rw [Orchestrator.State.afterAll_concat, ← he]
      rfl
    · have hf := hf.work h ho run
      rw [← he] at hf
      exact hf

theorem Attends.finish (h : o.initial = .ok s₀) (ho : o.RunsPromptly)
    (ha : a.Attends o s₀ s₁ text document) : ∃ c,
      (a.finish o).state.orchestrator.Leaves o s₁ text document c ∧
        (a.finish o).waiting = .ended (some c) := by
  obtain ⟨history, he⟩ := ha.reached
  have hf := ha.followed
  rw [he] at hf
  rw [Awaited.finish, he]
  exact hf.settleAll h ho

theorem Attends.settleAll_take (h : o.initial = .ok s₀) (ha : a.Attends o s₀ s₁ text document)
    (ht : turn.Alone) :
    (a.take o turn).state.orchestrator.settleAll o = a.state.orchestrator.settleAll o := by
  obtain ⟨history, he⟩ := ha.reached
  cases turn with
  | reader => rfl
  | work run visits =>
    obtain rfl : visits = [] := ht
    have hcoh := Orchestrator.State.coherent_of_initial h history
    rw [← he] at hcoh
    exact Orchestrator.State.settleAll_after hcoh run

-- A turn makes no difference in the end.
theorem Attends.finish_take (h : o.initial = .ok s₀) (ho : o.RunsPromptly)
    (ha : a.Attends o s₀ s₁ text document) (ht : turn.Alone) :
    (a.take o turn).finish o = a.finish o := by
  have hs : ((a.take o turn).finish o).state = (a.finish o).state := by
    have he := ha.settleAll_take h ht
    cases turn with
    | reader => rfl
    | work run visits => exact congrArg (fun orchestrator => { a.state with orchestrator }) he
  have hw : ((a.take o turn).finish o).waiting = (a.finish o).waiting := by
    obtain ⟨c, hl, hc⟩ := ha.finish h ho
    obtain ⟨c', hl', hc'⟩ := (ha.take h ho ht).finish h ho
    rw [hs] at hl'
    cases hl.last.symm.trans hl'.last
    rw [hc, hc']
  exact congrArg₂ Awaited.mk hs hw

theorem Attends.finish_takeAll (h : o.initial = .ok s₀) (ho : o.RunsPromptly)
    (ha : a.Attends o s₀ s₁ text document) {turns : List Turn} (ht : ∀ turn ∈ turns, turn.Alone) :
    (a.takeAll o turns).finish o = a.finish o ∧ (a.takeAll o turns).Attends o s₀ s₁ text document := by
  induction turns generalizing a with
  | nil => exact ⟨rfl, ha⟩
  | cons turn turns hi =>
    have ⟨ht, hts⟩ := List.forall_mem_cons.mp ht
    have ⟨he, ha'⟩ := hi (ha.take h ho ht) hts
    exact ⟨he.trans <| ha.finish_take h ho ht, ha'⟩

theorem Attends.finish_of_ended (ha : a.Attends o s₀ s₁ text document) {x : Option Completion}
    (hx : a.waiting = .ended x) : a.finish o = a := by
  obtain ⟨state, waiting⟩ := a
  obtain rfl : waiting = .ended x := hx
  cases ha.followed with
  | ended hl =>
    rw [Awaited.finish, Orchestrator.State.settleAll_of_nil hl.tasks, Waiting.readAll_ended]

-- Whoever has got to the end of a run has come to what comes of doing all the work first, and then all
-- the reading.
theorem Attends.eq_finish (h : o.initial = .ok s₀) (ho : o.RunsPromptly)
    (ha : a.Attends o s₀ s₁ text document) {turns : List Turn} (ht : ∀ turn ∈ turns, turn.Alone)
    {x : Option Completion} (hx : (a.takeAll o turns).waiting = .ended x) :
    a.takeAll o turns = a.finish o :=
  have ⟨he, ha'⟩ := ha.finish_takeAll h ho ht
  (ha'.finish_of_ended hx).symm.trans he

end Awaited

theorem State.orchestrator_trigger (s : State) (trigger : Trigger) :
    (s.trigger trigger).2.orchestrator = (s.orchestrator.start s.specText s.provider.current).2 := by
  unfold State.trigger
  cases s.orchestrator.start s.specText s.provider.current with
  | mk outcome orchestrator => cases outcome <;> rfl

-- Somebody starts a run while none is active, and waits for it.
theorem Awaited.begin_attends {o : Orchestrator} {s₀ : Orchestrator.State} {s : State}
    (h : o.initial = .ok s₀) {history : List Orchestrator.Happening}
    (he : s.orchestrator = s₀.afterAll o history) (hp : s.orchestrator.phase = .idle)
    (trigger : Trigger) : (begin s trigger).Attends o s₀ s.orchestrator s.specText s.provider.current where
  reached  := by
    refine ⟨history ++ [.start s.specText s.provider.current], ?_⟩
    rw [Orchestrator.State.afterAll_concat, ← he]
    exact s.orchestrator_trigger trigger
  followed := by
    rw [he] at hp
    have hf := Followed.launch h hp s.specText s.provider.current
    rw [← he] at hf
    rw [begin, s.orchestrator_trigger trigger]
    exact hf

end Session

end ModelAudit

import ModelAudit.Proofs.Session.Announcements
import ModelAudit.Session.Operation

namespace ModelAudit

-- What receivers are told when a run is launched.
def RunEvent.started? : RunEvent → Option (RunId × Option String)
  | started run digest => some (run, digest)
  | progress .. | completed _ | cancelled _ => none

namespace Session

namespace Operation

-- The document that is put in the place of the current one.
def document? : Operation → Option Document
  | setDocument d => some d
  | _ => none

-- Whether another specification may be in place afterwards.
def Specifies : Operation → Prop
  | setSpecText _ | documentChanged => True
  | _ => False

-- Whether a run is started past the session.
def Bypasses : Operation → Prop
  | background (.start ..) => True
  | _ => False

end Operation

def documentAfter (d : Document) (operations : List Operation) : Document :=
  (operations.filterMap Operation.document?).getLast?.getD d

-- The specification that was put in place last in the course of operations, and where it comes from.
inductive Latest (d : Document) : List Operation → String → Prop
  | initial {operations} (hn : ∀ op ∈ operations, ¬op.Specifies) :
    Latest d operations (specificationOf d)
  | given {before text after} (hn : ∀ op ∈ after, ¬op.Specifies) :
    Latest d (before ++ .setSpecText text :: after) text
  | stored {before after} (hn : ∀ op ∈ after, ¬op.Specifies) :
    Latest d (before ++ .documentChanged :: after) (specificationOf (documentAfter d before))

-- A run that was launched by a trigger, with what the session had for it.
structure Launch where
  run      : RunId
  trigger  : Trigger
  document : Document
  text     : String
deriving DecidableEq

def Launch.digest (l : Launch) : Option String :=
  (CheckSet.parse l.text).toOption.map CheckSet.digest

namespace State

variable {o : Orchestrator} {s s₀ : State} {d : Document} {op : Operation} {text : String}
  {operations before more : List Operation} {l : Launch}

def launch? (s : State) : Operation → Option Launch
  | .trigger trigger =>
    match (s.trigger trigger).1 with
    | .started run => some { run, trigger, document := s.provider.current, text := s.specText }
    | _ => none
  | _ => none

-- The runs that are launched in the course of operations, one after the other.
def launches (o : Orchestrator) (s : State) : List Operation → List Launch
  | [] => []
  | op :: operations => (s.launch? op).toList ++ (s.operate o op).launches o operations

theorem operateAll_concat (o : Orchestrator) (s : State) (operations : List Operation) (op : Operation) :
    s.operateAll o (operations ++ [op]) = (s.operateAll o operations).operate o op :=
  List.foldl_append

theorem launches_concat (o : Orchestrator) (s : State) (operations : List Operation) (op : Operation) :
    s.launches o (operations ++ [op]) =
      s.launches o operations ++ ((s.operateAll o operations).launch? op).toList := by
  induction operations generalizing s
  case nil => exact List.append_nil _
  case cons op' operations hi => simp [launches, hi, operateAll]

-- What a trigger does to a session; it is remembered only if it launches a run.
theorem trigger_eq (s : State) (trigger : Trigger) : (s.trigger trigger).2 =
    { s with
      orchestrator := (s.orchestrator.start s.specText s.provider.current).2
      lastTrigger := ((s.launch? (.trigger trigger)).map (·.trigger)).or s.lastTrigger } := by
  simp only [State.trigger, launch?]
  generalize s.orchestrator.start s.specText s.provider.current = answer
  obtain ⟨outcome, orchestrator⟩ := answer
  cases outcome <;> rfl

theorem launch?_of_not_started {trigger : Trigger}
    (h : ∀ run, (s.trigger trigger).1 ≠ .started run) : s.launch? (.trigger trigger) = none := by
  rw [launch?]
  split
  case h_1 hs => exact absurd hs <| h _
  case h_2 => rfl

theorem launch?_eq_some_iff : s.launch? op = some l ↔ op = .trigger l.trigger ∧
    (s.trigger l.trigger).1 = .started l.run ∧ l.document = s.provider.current ∧ l.text = s.specText := by
  cases op
  case trigger trigger =>
    rw [launch?]
    constructor
    case mp =>
      intro h
      split at h
      case h_1 hs => cases h; exact ⟨rfl, hs, rfl, rfl⟩
      case h_2 => cases h
    case mpr =>
      obtain ⟨_, _, _, _⟩ := l
      rintro ⟨⟨⟩, hs, rfl, rfl⟩
      rw [hs]
  all_goals simp [launch?]

-- A run was launched in the course of operations if it was launched by one of them.
theorem mem_launches_iff : l ∈ s.launches o operations ↔ ∃ before after,
    operations = before ++ .trigger l.trigger :: after ∧
      (s.operateAll o before).launch? (.trigger l.trigger) = some l := by
  induction operations generalizing s
  case nil => simp [launches]
  case cons op operations hi =>
    rw [launches, List.mem_append, Option.mem_toList, hi]
    constructor
    case mp =>
      rintro (h | ⟨before, after, rfl, h⟩)
      · obtain ⟨rfl, _⟩ := launch?_eq_some_iff.mp h
        exact ⟨[], operations, rfl, h⟩
      · exact ⟨op :: before, after, rfl, h⟩
    case mpr =>
      rintro ⟨before, after, he, h⟩
      cases before
      case nil => cases he; exact .inl h
      case cons => cases he; exact .inr ⟨_, _, rfl, h⟩

section Memory

theorem documentAfter_concat (d : Document) (operations : List Operation) (op : Operation) :
    documentAfter d (operations ++ [op]) = op.document?.getD (documentAfter d operations) := by
  cases h : op.document? <;> simp [documentAfter, h]

theorem current_operate (o : Orchestrator) (s : State) (op : Operation) :
    (s.operate o op).provider.current = op.document?.getD s.provider.current := by
  cases op
  case trigger => rw [operate, trigger_eq]; rfl
  all_goals rfl

theorem current_operateAll (o : Orchestrator) (s : State) (operations : List Operation) :
    (s.operateAll o operations).provider.current = documentAfter s.provider.current operations := by
  induction operations using List.reverseRecOn
  case nil => rfl
  case append_singleton operations op hi =>
    rw [operateAll_concat, current_operate, hi, documentAfter_concat]

theorem specText_operate (hn : ¬op.Specifies) : (s.operate o op).specText = s.specText := by
  cases op
  case trigger => rw [operate, trigger_eq]
  case setSpecText => exact absurd trivial hn
  case documentChanged => exact absurd trivial hn
  all_goals rfl

end Memory

end State

section Latest

variable {d : Document} {operations : List Operation} {op : Operation} {text : String}

theorem Latest.concat (h : Latest d operations text) (hn : ¬op.Specifies) :
    Latest d (operations ++ [op]) text := by
  have still {after : List Operation} (ha : ∀ x ∈ after, ¬x.Specifies) :
      ∀ x ∈ after ++ [op], ¬x.Specifies :=
    List.forall_mem_append.mpr ⟨ha, List.forall_mem_singleton.mpr hn⟩
  cases h with
  | initial ha => exact .initial <| still ha
  | given ha =>
    rw [List.append_assoc, List.cons_append]
    exact .given <| still ha
  | stored ha =>
    rw [List.append_assoc, List.cons_append]
    exact .stored <| still ha

theorem State.latest_operateAll {s : State} (o : Orchestrator)
    (hs : s.specText = specificationOf s.provider.current) (operations : List Operation) :
    Latest s.provider.current operations (s.operateAll o operations).specText := by
  induction operations using List.reverseRecOn
  case nil => exact hs ▸ .initial (List.forall_mem_nil _)
  case append_singleton operations op hi =>
    rw [operateAll_concat]
    by_cases hp : op.Specifies
    case neg =>
      rw [specText_operate hp]
      exact hi.concat hp
    case pos =>
      cases op
      case setSpecText text => exact .given (List.forall_mem_nil _)
      case documentChanged =>
        rw [operate, documentChanged, current_operateAll]
        exact .stored (List.forall_mem_nil _)
      all_goals cases hp

end Latest

section Attributed

open Orchestrator (Task)

-- What an orchestrator has and tells goes back to the runs that were launched.
structure Attributed (launches : List Launch) (s : Orchestrator.State) : Prop where
  count     : s.launches = launches.length
  numbered  : launches.map (·.run.number) = List.range' 1 launches.length
  inFlight  : ∀ t ∈ s.tasks, ∃ l ∈ launches, t.Carries l.run l.text ∧ t.document = l.document
  started   : s.channel.sent.filterMap RunEvent.started? = launches.map fun l => (l.run, l.digest)
  completed : ∀ c, .completed c ∈ s.channel.sent →
    ∃ l ∈ launches, c.run = l.run ∧ c.digest = l.digest

variable {o : Orchestrator} {s s' : Orchestrator.State} {launches : List Launch}
  {h : Orchestrator.Happening} {events : List RunEvent} {text : String} {document : Document}

theorem started?_of_goes {t : Task} {signals : Signals} {stage : Orchestrator.Stage}
    (h : t.Goes o signals events stage) : ∀ event ∈ events, event.started? = none := by
  cases h
  case press => exact List.forall_mem_nil _
  case move h =>
    cases h
    case deliver => exact List.forall_mem_singleton.mpr rfl
    all_goals exact List.forall_mem_nil _

-- As long as no run is launched, the work in flight is what it was, and so is what runs complete with.
theorem Attributed.extend (ha : Attributed launches s) (hl : s'.launches = s.launches)
    (ht : ∀ t' ∈ s'.tasks, ∃ t ∈ s.tasks, t' = { t with stage := t'.stage })
    (hs : s'.channel.sent = s.channel.sent ++ events) (he : ∀ event ∈ events, event.started? = none)
    (hc : ∀ c, .completed c ∈ events → ∃ t ∈ s.tasks, c.run = t.run ∧ c.digest = t.digest) :
    Attributed launches s' := by
  constructor
  case count => exact hl.trans ha.count
  case numbered => exact ha.numbered
  case inFlight =>
    intro t' hm
    obtain ⟨t, hm, he⟩ := ht t' hm
    obtain ⟨l, hl, hca, hd⟩ := ha.inFlight t hm
    rw [he]
    exact ⟨l, hl, ⟨hca.run, hca.spec, hca.digest⟩, hd⟩
  case started =>
    rw [hs, List.filterMap_append, List.filterMap_eq_nil_iff.mpr he, List.append_nil, ha.started]
  case completed =>
    intro c hm
    rw [hs] at hm
    cases List.mem_append.mp hm
    case inl hm => exact ha.completed c hm
    case inr hm =>
      obtain ⟨t, hm, hr, hd⟩ := hc c hm
      obtain ⟨l, hl, hca, _⟩ := ha.inFlight t hm
      exact ⟨l, hl, hr.trans hca.run, hd.trans hca.digest⟩

theorem Attributed.turn (ha : Attributed launches s) (ht : s.Turn o h s')
    (hn : ∀ text document, h = .start text document → s.phase ≠ .idle) : Attributed launches s' := by
  cases ht with
  | aside _ ht hs hl =>
    have hs' : s'.channel.sent = s.channel.sent ++ [] := by simp [hs]
    exact ha.extend hl (fun t hm => ⟨t, ht ▸ hm, rfl⟩) hs' (List.forall_mem_nil _) nofun
  | launch hl => exact absurd hl.idle <| hn _ _ rfl
  | @go t _ stage _ _ ht _ hg ht' hs hl =>
    refine ha.extend hl ?_ hs (started?_of_goes hg) fun c hm => nomatch hg.closing?_eq_none _ hm
    rw [ht', List.forall_mem_singleton]
    exact ⟨t, by simp [ht], rfl⟩
  | @close t outcome visits ht hs hg =>
    have htasks : ∀ t' ∈ (s.finish o visits t outcome).tasks,
        ∃ t ∈ s.tasks, t' = { t with stage := t'.stage } := by
      rw [Orchestrator.State.tasks_finish hg ht]
      exact List.forall_mem_nil _
    have hl : (s.finish o visits t outcome).launches = s.launches := Orchestrator.State.launches_finish hg
    cases outcome
    case cancelled =>
      exact ha.extend hl htasks (Orchestrator.State.sent_finish_cancelled hg)
        (List.forall_mem_singleton.mpr rfl) (by simp)
    case finished records =>
      obtain ⟨c, hc, hs'⟩ := Orchestrator.State.sent_finish_finished (o := o) hg visits records
      refine ha.extend hl htasks hs' (List.forall_mem_singleton.mpr rfl) fun c' hm => ?_
      cases List.mem_singleton.mp hm
      exact ⟨t, by simp [ht], hc.run, hc.digest⟩

theorem Attributed.launch (ha : Attributed launches s) (hl : s.Launches text document s')
    (trigger : Trigger) :
    Attributed (launches ++ [{ run := ⟨s.launches + 1⟩, trigger, document, text }]) s' := by
  constructor
  case count => simp [hl.launches, ha.count]
  case numbered => simp [ha.numbered, ha.count, List.range'_1_concat, Nat.add_comm]
  case inFlight =>
    rw [hl.tasks', List.forall_mem_singleton]
    exact ⟨_, List.mem_append_right _ <| List.mem_singleton_self _, ⟨rfl, rfl, rfl⟩, rfl⟩
  case started =>
    rw [hl.sent, List.filterMap_append, ha.started, List.map_append]
    rfl
  case completed =>
    intro c hm
    rw [hl.sent, List.mem_append, List.mem_singleton] at hm
    obtain ⟨l, hl, h⟩ := ha.completed c <| hm.resolve_right nofun
    exact ⟨l, List.mem_append_left _ hl, h⟩

end Attributed

namespace State

variable {o : Orchestrator} {s s₀ : State} {d : Document} {operations : List Operation}
  {op : Operation} {trigger : Trigger}

section Announced

theorem lastTrigger_operate (o : Orchestrator) (s : State) (op : Operation) :
    (s.operate o op).lastTrigger = ((s.launch? op).map (·.trigger)).or s.lastTrigger := by
  cases op
  case trigger => rw [operate, trigger_eq]
  all_goals rfl

theorem suppressed_operate (o : Orchestrator) (s : State) (op : Operation) :
    (s.operate o op).suppressed = true ↔ s.suppressed = true ∨ op = .suppress := by
  cases op
  case trigger => simp [operate, trigger_eq]
  all_goals simp [operate, setDocument, documentChanged, setSpecText, suppress]

theorem lastTrigger_operateAll (o : Orchestrator) (s : State) (operations : List Operation) :
    (s.operateAll o operations).lastTrigger =
      ((s.launches o operations).getLast?.map (·.trigger)).or s.lastTrigger := by
  induction operations using List.reverseRecOn
  case nil => rfl
  case append_singleton operations op hi =>
    rw [operateAll_concat, lastTrigger_operate, hi, launches_concat]
    cases (s.operateAll o operations).launch? op <;> simp

theorem suppressed_operateAll (o : Orchestrator) (s : State) (operations : List Operation) :
    (s.operateAll o operations).suppressed = true ↔
      s.suppressed = true ∨ .suppress ∈ operations := by
  induction operations using List.reverseRecOn
  case nil => simp [operateAll]
  case append_singleton operations op hi =>
    rw [operateAll_concat, suppressed_operate, hi, or_assoc, List.mem_append, List.mem_singleton,
      eq_comm (a := op)]

end Announced

section Launched

def happenings (s : State) : Operation → List Orchestrator.Happening
  | .trigger _ => [.start s.specText s.provider.current]
  | .background h => [h]
  | _ => []

theorem orchestrator_operate (o : Orchestrator) (s : State) (op : Operation) :
    (s.operate o op).orchestrator = s.orchestrator.afterAll o (s.happenings op) := by
  cases op
  case trigger => rw [operate, trigger_eq]; rfl
  all_goals rfl

theorem exists_history (o : Orchestrator) (s : State) (operations : List Operation) :
    ∃ history, (s.operateAll o operations).orchestrator = s.orchestrator.afterAll o history := by
  induction operations using List.reverseRecOn
  case nil => exact ⟨[], rfl⟩
  case append_singleton operations op hi =>
    obtain ⟨history, hi⟩ := hi
    rw [operateAll_concat, orchestrator_operate, hi, ← Orchestrator.State.afterAll_append]
    exact ⟨_, rfl⟩

theorem attributed_operate {facts : List Orchestrator.Incident} {launches : List Launch}
    (hc : s.orchestrator.lifecycle.Coherent facts) (ha : Attributed launches s.orchestrator)
    (hn : ¬op.Bypasses) :
    Attributed (launches ++ (s.launch? op).toList) (s.operate o op).orchestrator := by
  cases op
  case trigger trigger =>
    rw [orchestrator_operate]
    by_cases hp : s.orchestrator.phase = .idle
    case pos =>
      have hs := Orchestrator.State.started_of_idle hp s.specText s.provider.current
      have hl : s.launch? (.trigger trigger) =
          some ⟨⟨s.orchestrator.launches + 1⟩, trigger, s.provider.current, s.specText⟩ :=
        launch?_eq_some_iff.mpr ⟨rfl, hs, rfl, rfl⟩
      rw [hl]
      exact ha.launch (Orchestrator.State.after_launches (o := o) hc hp _ _) trigger
    case neg =>
      have hl : s.launch? (.trigger trigger) = none :=
        launch?_of_not_started fun run hs => hp (Orchestrator.State.idle_of_started hs).left
      rw [hl, Option.toList_none, List.append_nil]
      refine ha.turn (o := o) (Orchestrator.State.after_turn hc <| .start s.specText s.provider.current) ?_
      exact fun _ _ _ => hp
  case background h =>
    have hl : s.launch? (.background h) = none := rfl
    rw [hl, Option.toList_none, List.append_nil]
    refine ha.turn (Orchestrator.State.after_turn hc h) ?_
    rintro _ _ rfl
    exact absurd trivial hn
  all_goals exact (List.append_nil launches).symm ▸ ha

theorem attributed_operateAll (h : o.initial = .ok s.orchestrator)
    (hn : ∀ op ∈ operations, ¬op.Bypasses) :
    Attributed (s.launches o operations) (s.operateAll o operations).orchestrator := by
  induction operations using List.reverseRecOn
  case nil =>
    obtain ⟨_, he⟩ := Orchestrator.State.eq_of_initial h
    rw [operateAll, List.foldl_nil, he]
    exact ⟨rfl, rfl, List.forall_mem_nil _, rfl, nofun⟩
  case append_singleton operations op hi =>
    obtain ⟨hn, hn'⟩ := List.forall_mem_append.mp hn
    obtain ⟨history, he⟩ := exists_history o s operations
    have hc := Orchestrator.State.coherent_of_initial h history
    rw [operateAll_concat, launches_concat]
    exact attributed_operate (he ▸ hc) (hi hn) <| hn' op <| List.mem_singleton_self op

end Launched

end State

-- What a session keeps while its caller does one thing at a time.
structure Keeping (o : Orchestrator) (d : Document) (s₀ : State) (operations : List Operation) :
    Prop where
  current    : ∀ before, before <+: operations →
    (s₀.operateAll o before).provider.current = documentAfter d before
  text       : ∀ before, before <+: operations → Latest d before (s₀.operateAll o before).specText
  launched   : ∀ l, l ∈ s₀.launches o operations ↔
    ∃ before after, operations = before ++ .trigger l.trigger :: after ∧
      ((s₀.operateAll o before).trigger l.trigger).1 = .started l.run ∧
        l.document = (s₀.operateAll o before).provider.current ∧
          l.text = (s₀.operateAll o before).specText
  attributed : Attributed (s₀.launches o operations) (s₀.operateAll o operations).orchestrator
  unmoved    : ∀ before trigger, before ++ [.trigger trigger] <+: operations →
    (∀ run, ((s₀.operateAll o before).trigger trigger).1 ≠ .started run) →
      (s₀.operateAll o (before ++ [.trigger trigger])).specText = (s₀.operateAll o before).specText ∧
        (s₀.operateAll o (before ++ [.trigger trigger])).shouldAnnounce =
          (s₀.operateAll o before).shouldAnnounce
  announced  : (s₀.operateAll o operations).shouldAnnounce = true ↔
    (∃ l, (s₀.launches o operations).getLast? = some l ∧ l.trigger = .shortcut) ∧
      .suppress ∉ operations

-- However far the work of the runs comes in between, and whatever else goes on, as long as nobody starts
-- runs past the session.
theorem operations_kept {o : Orchestrator} {d : Document} {s : State} {operations : List Operation}
    (h : Session.initial o d = .ok s) (hn : ∀ op ∈ operations, ¬op.Bypasses) :
    Keeping o d s operations := by
  have ho := orchestrator_of_initial h
  obtain ⟨orchestrator, rfl⟩ := eq_of_initial h
  let s : State := { orchestrator, provider := { current := d }, specText := specificationOf d }
  constructor
  case current => exact fun before _ => s.current_operateAll o before
  case text => exact fun before _ => s.latest_operateAll o rfl before
  case launched =>
    intro l
    simp only [State.mem_launches_iff, State.launch?_eq_some_iff, true_and]
  case attributed => exact State.attributed_operateAll ho hn
  case unmoved =>
    intro before trigger _ hs
    rw [State.operateAll_concat, State.operate, State.trigger_eq, State.launch?_of_not_started hs]
    exact ⟨rfl, rfl⟩
  case announced =>
    rw [Scene.shouldAnnounce_iff, State.lastTrigger_operateAll, State.suppressed_operateAll]
    simp

-- A run is asked to stop by a trigger that nobody would announce, and the next one is launched with a text
-- that no document has.
theorem operations_kept_of_interleaved :
    let o : Orchestrator := { runner := Catalog.builtin.runner }
    let s : State := { orchestrator := { channel := { capacity := 64 } },
                       provider := { current := { name := "m" } }, specText := CheckSet.emptyText }
    let interrupted : List Operation :=
      [.setDocument specified, .trigger .shortcut, .documentChanged, .trigger .button]
    let work : List Operation := List.replicate 6 (.background (.work ⟨1⟩ []))
    let operations := interrupted ++ work ++ [.setSpecText "", .trigger .button, .trigger .shortcut]
    Session.initial o { name := "m" } = .ok s ∧ (∀ op ∈ operations, ¬op.Bypasses) ∧
      s.launches o operations =
        [⟨⟨1⟩, .shortcut, specified, CheckSet.emptyText⟩, ⟨⟨2⟩, .button, specified, ""⟩] ∧
      (s.operateAll o interrupted).shouldAnnounce = true ∧
      (s.operateAll o operations).shouldAnnounce = false ∧ Keeping o { name := "m" } s operations := by
  intro o s interrupted work operations
  have h : Session.initial o { name := "m" } = .ok s := by
    rw [Session.initial, Orchestrator.State.initial_of_runner]
    rfl
  have hn : ∀ op ∈ operations, ¬op.Bypasses := by
    simp [operations, interrupted, work, Operation.Bypasses]
  exact ⟨h, hn, by decide +kernel, by decide +kernel, by decide +kernel, operations_kept h hn⟩

end Session

end ModelAudit

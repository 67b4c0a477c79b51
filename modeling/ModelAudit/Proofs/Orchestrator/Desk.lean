import ModelAudit.Proofs.Orchestrator.Lifecycle
import ModelAudit.Proofs.Registry.Ledger

namespace ModelAudit

open Registry (Use)

-- What a visit changes about the registry.
def Visit.uses : Visit → List Use
  | register a => [.register .other a]
  | take t => [.take t]
  | revoke ts => [.revoke .other ts]
  | push _ => []
  | remove _ => []

def visitUses (vs : List Visit) : List Use :=
  vs.flatMap Visit.uses

theorem Visit.user_of_mem_uses {v : Visit} {use : Use} (h : use ∈ v.uses) : use.user = .other := by
  cases v
  case push => cases h
  case remove => cases h
  all_goals rw [List.mem_singleton.mp h]; rfl

theorem user_of_mem_visitUses {vs : List Visit} {use : Use} (h : use ∈ visitUses vs) :
    use.user = .other :=
  have ⟨_, _, h⟩ := List.mem_flatMap.mp h
  Visit.user_of_mem_uses h

namespace Shared

theorem registry_visit (s : Shared) (v : Visit) : (s.visit v).registry = s.registry.afterAll v.uses := by
  cases v <;> rfl

theorem registry_visitAll (s : Shared) (vs : List Visit) :
    (s.visitAll vs).registry = s.registry.afterAll (visitUses vs) := by
  induction vs generalizing s
  case nil => rfl
  case cons v vs hi =>
    refine (hi (s.visit v)).trans ?_
    rw [registry_visit, ← Registry.afterAll_append]
    rfl

theorem registry_yield (s : Shared) (visits : Visits) :
    (s.yield visits).registry = s.registry.afterAll (visitUses (visits.headD [])) :=
  s.registry_visitAll _

end Shared

namespace Orchestrator

-- How the uses of a registry bring about results with tokens: whatever others do in between, each
-- action is registered in its turn, and its result gets the token that is issued for it.
inductive Issues : Registry → List Use → List Published → Prop
  | nil {r} : Issues r [] []
  | aside {r use uses results} (hu : use.user = .other) (h : Issues (r.after use) uses results) :
    Issues r (use :: uses) results
  | plain {r uses results record} (ht : record.trace = none) (h : Issues r uses results) :
    Issues r uses (⟨record, none⟩ :: results)
  | issue {r uses results record a} (ht : record.trace = some a)
    (h : Issues (r.after (.register .publisher a)) uses results) :
    Issues r (.register .publisher a :: uses) (⟨record, some (r.register a).1⟩ :: results)

namespace Issues

variable {r : Registry} {uses more : List Use} {results : List Published}

theorem behind (hu : ∀ use ∈ more, use.user = .other) (h : Issues (r.afterAll more) uses results) :
    Issues r (more ++ uses) results := by
  induction more generalizing r
  case nil => exact h
  case cons use more hi =>
    exact .aside (hu use <| .head more) <| hi (fun u hm => hu u <| .tail use hm) h

theorem of_others (hu : ∀ use ∈ uses, use.user = .other) : Issues r uses [] :=
  List.append_nil uses ▸ behind hu .nil

theorem append (h : Issues r uses results) (hu : ∀ use ∈ more, use.user = .other) :
    Issues r (uses ++ more) results := by
  induction h
  case nil => exact of_others hu
  case aside ho _ hi => exact .aside ho hi
  case plain ht _ hi => exact .plain ht hi
  case issue ht _ hi => exact .issue ht hi

theorem register_of_publisher (h : Issues r uses results) {use : Use} (hm : use ∈ uses)
    (hu : use.user = .publisher) : ∃ a, use = .register .publisher a := by
  induction h
  case nil => cases hm
  case aside ho _ hi =>
    rcases List.mem_cons.mp hm with rfl | hm
    · cases ho.symm.trans hu
    · exact hi hm
  case plain hi => exact hi hm
  case issue hi =>
    rcases List.mem_cons.mp hm with rfl | hm
    · exact ⟨_, rfl⟩
    · exact hi hm

theorem token_isSome (h : Issues r uses results) {p : Published} (hp : p ∈ results) :
    p.token.isSome = p.record.hasTrace := by
  induction h
  case nil => cases hp
  case aside hi => exact hi hp
  case plain ht _ hi =>
    rcases List.mem_cons.mp hp with rfl | hp
    · simp [Record.hasTrace, ht]
    · exact hi hp
  case issue ht _ hi =>
    rcases List.mem_cons.mp hp with rfl | hp
    · simp [Record.hasTrace, ht]
    · exact hi hp

-- The tokens of the results are those that were issued to the publisher, in the same order.
theorem tokens_eq (h : Issues r uses results) : results.filterMap (·.token) =
    ((r.receipts uses).filter fun x => x.user = .publisher).map (·.token) := by
  induction h
  case nil => rfl
  case aside r use _ _ hu _ hi =>
    have hn : (r.receipt? use).toList.filter (fun x => x.user = .publisher) = [] := by
      cases use <;> cases hu <;> rfl
    rw [hi, Registry.receipts, List.filter_append, hn, List.nil_append]
  case plain hi => exact hi
  case issue hi => simp [Registry.receipts, Registry.receipt?, hi]

-- Each token was issued for the action of its record.
theorem exists_register (h : Issues r uses results) {p : Published} {t : Token} (hp : p ∈ results)
    (ht : p.token = some t) : ∃ a before since, p.record.trace = some a ∧
      uses = before ++ .register .publisher a :: since ∧ t = ((r.afterAll before).register a).1 := by
  induction h
  case nil => cases hp
  case aside use _ _ _ _ hi =>
    have ⟨a, before, since, ha, he, hn⟩ := hi hp
    exact ⟨a, use :: before, since, ha, congrArg (use :: ·) he, hn⟩
  case plain hi =>
    rcases List.mem_cons.mp hp with rfl | hp
    · cases ht
    · exact hi hp
  case issue r uses _ _ a ha _ hi =>
    rcases List.mem_cons.mp hp with rfl | hp
    · cases ht
      exact ⟨a, [], uses, ha, rfl, rfl⟩
    · have ⟨b, before, since, hb, he, hn⟩ := hi hp
      exact ⟨b, .register .publisher a :: before, since, hb, congrArg (_ :: ·) he, hn⟩

end Issues

structure Desk where
  registry  : Registry
  published : List Token
  last      : Option Completion
  told      : List Completion

def RunEvent.completed? : RunEvent → Option Completion
  | .completed c => some c
  | _ => none

-- What a happening does to the desk, and what it adds to the ledger of the registry. The tokens of the
-- completion before are revoked first.
inductive Desk.Step (d : Desk) : List Use → Option Completion → Desk → Prop
  | serve {uses} (hu : ∀ use ∈ uses, use.user = .other) :
    d.Step uses none { d with registry := d.registry.afterAll uses }
  | publish {c arriving issuing} (ha : ∀ use ∈ arriving, use.user = .other)
    (hi : Issues (d.registry.afterAll (arriving ++ [.revoke .publisher d.published])) issuing c.results)
    (ho : c.overall = Record.overall c.records) :
    d.Step (arriving ++ .revoke .publisher d.published :: issuing) (some c)
      { registry  := d.registry.afterAll (arriving ++ .revoke .publisher d.published :: issuing)
        published := c.tokens
        last      := some c
        told      := d.told ++ [c] }

section

variable {d d' : Desk} {uses : List Use} {told : Option Completion}

theorem Desk.Step.registry_eq (h : d.Step uses told d') : d'.registry = d.registry.afterAll uses := by
  cases h <;> rfl

theorem Desk.Step.told_eq (h : d.Step uses told d') : d'.told = d.told ++ told.toList := by
  cases h
  case serve => exact (List.append_nil _).symm
  case publish => rfl

theorem Desk.Step.issues {c : Completion} (h : d.Step uses (some c) d') :
    ∃ earlier issuing, uses = earlier ++ issuing ∧
      Issues (d.registry.afterAll earlier) issuing c.results ∧
        c.overall = Record.overall c.records := by
  cases h
  case publish arriving issuing _ hi ho =>
    exact ⟨arriving ++ [.revoke .publisher d.published], issuing, by simp, hi, ho⟩

end

-- What registering the records comes to, with what others do in between.
def registerUses (visits : Visits) : List Record → List Use
  | [] => []
  | r :: rs =>
    match r.trace with
    | none => registerUses visits rs
    | some a => visitUses (visits.headD []) ++ .register .publisher a :: registerUses visits.tail rs

-- The problem list is not the registry, but others come in between all the same.
def reportUses (visits : Visits) : List Problem → List Use
  | [] => []
  | _ :: ps => visitUses (visits.headD []) ++ reportUses visits.tail ps

theorem user_of_mem_reportUses {visits : Visits} {ps : List Problem} {use : Use}
    (h : use ∈ reportUses visits ps) : use.user = .other := by
  induction ps generalizing visits
  case nil => cases h
  case cons p ps hi =>
    cases List.mem_append.mp h
    case inl h => exact user_of_mem_visitUses h
    case inr h => exact hi h

theorem registry_report (visits : Visits) (s : Shared) (ps : List Problem) :
    (report visits s ps).registry = s.registry.afterAll (reportUses visits ps) := by
  induction ps generalizing visits s
  case nil => rfl
  case cons p ps hi =>
    refine (hi visits.tail _).trans ?_
    rw [reportUses, Registry.afterAll_append, ← s.registry_yield]

theorem register_issues (visits : Visits) (s : Shared) (records : List Record) :
    Issues s.registry (registerUses visits records) (register visits s records).1 ∧
      (register visits s records).2.2.registry = s.registry.afterAll (registerUses visits records) := by
  induction records generalizing visits s
  case nil => exact ⟨.nil, rfl⟩
  case cons r rs hi =>
    cases ht : r.trace
    case none =>
      obtain ⟨h, hr⟩ := hi visits s
      simp only [register, registerUses, ht]
      exact ⟨.plain ht h, hr⟩
    case some a =>
      let s' : Shared := { s.yield visits with registry := ((s.yield visits).registry.register a).2 }
      obtain ⟨h, hr⟩ := hi visits.tail s'
      have hy := s.registry_yield visits
      simp only [register, registerUses, ht]
      refine ⟨.behind (fun _ => user_of_mem_visitUses) ?_, ?_⟩
      · rw [← hy]
        exact .issue ht h
      · rw [Registry.afterAll_append, ← hy]
        exact hr

section Alone

theorem visits_register_nil (s : Shared) (records : List Record) : (register [] s records).2.1 = [] := by
  induction records generalizing s
  case nil => rfl
  case cons r rs hi => cases ht : r.trace <;> simp [register, ht, hi]

theorem register_of_mem_registerUses {records : List Record} {use : Use}
    (h : use ∈ registerUses [] records) : ∃ a, use = .register .publisher a := by
  induction records
  case nil => cases h
  case cons r rs hi =>
    cases ht : r.trace
    case none => exact hi <| by simpa [registerUses, ht] using h
    case some a =>
      rcases (by simpa [registerUses, visitUses, ht] using h : _ ∨ _) with rfl | h
      · exact ⟨a, rfl⟩
      · exact hi h

theorem reportUses_nil (ps : List Problem) : reportUses [] ps = [] := by
  induction ps
  case nil => rfl
  case cons p ps hi => exact hi

end Alone

namespace State

variable {o : Orchestrator} {s s' : State} {t : Task} {visits : Visits} {h : Happening}

def desk (s : State) : Desk where
  registry  := s.shared.registry
  published := s.published
  last      := s.last
  told      := s.channel.sent.filterMap RunEvent.completed?

-- What publishing records comes to.
def completeUses (o : Orchestrator) (visits : Visits) (s : State) (records : List Record) : List Use :=
  let shared := s.shared.yield visits
  let shared := { shared with registry := (shared.registry.revoke s.published).2 }
  let left := (register visits.tail shared records).2.1
  let failed := if o.config.publishProblems then records.filter (!·.satisfied) else []
  visitUses (visits.headD []) ++ .revoke .publisher s.published ::
    (registerUses visits.tail records ++ reportUses left (failed.map problemOf))

def uses (o : Orchestrator) (s : State) : Happening → List Use
  | .work run visits =>
    match s.task? run with
    | none => []
    | some t =>
      match t.stage with
      | .settled (.finished records) =>
        if s.generation = t.generation then s.completeUses o visits records else []
      | _ => []
  | .visit v => v.uses
  | .invoke token => s.shared.registry.invokeUses token
  | _ => []

-- All that was done to the registry in the course of a history, in order.
def ledger (o : Orchestrator) (s : State) : List Happening → List Use
  | [] => []
  | h :: history => s.uses o h ++ (s.after o h).ledger o history

theorem ledger_append (o : Orchestrator) (s : State) (history more : List Happening) :
    s.ledger o (history ++ more) = s.ledger o history ++ (s.afterAll o history).ledger o more := by
  induction history generalizing s
  case nil => rfl
  case cons h history hi => simp [ledger, hi, afterAll_cons]

-- The last step of a run that completes with the results.
structure Publishes (s : State) (h : Happening) (c : Completion) : Prop where
  happening : ∃ visits, h = .work c.run visits
  task      : ∃ t, s.task? c.run = some t ∧ t.stage = .settled (.finished c.records)

-- What the work of a run does to the registry of its own accord.
theorem mem_uses_of_alone {run : RunId} {use : Use} (h : use ∈ s.uses o (.work run [])) :
    use = .revoke .publisher s.published ∨ ∃ a, use = .register .publisher a := by
  simp only [uses] at h
  split at h
  · cases h
  · split at h
    · split at h
      · simp only [completeUses, List.headD_nil, List.tail_nil, visits_register_nil, reportUses_nil,
          List.append_nil] at h
        rcases List.mem_cons.mp h with h | h
        · exact .inl h
        · exact .inr <| register_of_mem_registerUses h
      · cases h
    · cases h

theorem desk_start (s : State) (text : String) (document : Document) :
    (s.start text document).2.desk = s.desk := by
  simp only [start]
  split
  case h_1 => rfl
  case h_2 => rfl
  case h_3 =>
    simp [launch, desk, send, emit, Channel.send, RunEvent.completed?]

-- Work that does not publish leaves the desk alone.
theorem desk_of_step? (h : s.step? o visits t = some s')
    (hn : ∀ records, t.stage = .settled (.finished records) → s.generation ≠ t.generation) :
    s'.desk = s.desk := by
  cases hs : t.stage <;> simp only [step?, hs] at h
  case launched => cases h; rfl
  case cleared => cases ht : t.spec <;> rw [ht] at h <;> cases h <;> rfl
  case checking work records =>
    cases work <;> simp only [work?] at h
    case done result =>
      rcases result with e | _
      case error => cases e <;> cases h <;> rfl
      case ok => cases h; rfl
    case press next => cases h; exact (s.toStage t.run (.checking next records)).desk_start ..
    case deliver => cases h; simp [desk, send, toStage, Channel.send, RunEvent.completed?]
    case gate =>
      split at h
      · cases h; rfl
      · split at h <;> cases h; rfl
    all_goals cases h; rfl
  case ended => cases h; rfl
  case settled outcome =>
    cases h
    simp only [finish]
    split
    case isFalse => rfl
    case isTrue hg =>
      cases outcome
      case finished records => exact absurd hg <| hn records hs
      case cancelled =>
        simp [conclude, cancel, desk, send, emit, endTask, Channel.send, RunEvent.completed?]

theorem desk_complete (o : Orchestrator) (visits : Visits) (s : State) (t : Task)
    (records : List Record) : ∃ c, c.run = t.run ∧ c.records = records ∧
      s.desk.Step (s.completeUses o visits records) (some c) (s.complete o visits t records).desk := by
  let revoked := { s.shared.yield visits with
    registry := ((s.shared.yield visits).registry.revoke s.published).2 }
  let issued := register visits.tail revoked records
  let failed := if o.config.publishProblems then records.filter (!·.satisfied) else []
  let c : Completion :=
    { run := t.run, digest := t.digest, results := issued.1, overall := Record.overall records }
  let leaving := reportUses issued.2.1 (failed.map problemOf)
  have hc : c.records = records := map_record_register ..
  have hr : revoked.registry = s.shared.registry.afterAll
      (visitUses (visits.headD []) ++ [.revoke .publisher s.published]) := by
    rw [Registry.afterAll_append, ← s.shared.registry_yield]
    rfl
  have ⟨hi, hs⟩ := register_issues visits.tail revoked records
  have hp : (report issued.2.1 issued.2.2 (failed.map problemOf)).registry =
      s.shared.registry.afterAll (visitUses (visits.headD []) ++ .revoke .publisher s.published ::
        (registerUses visits.tail records ++ leaving)) := by
    rw [registry_report, hs, hr, ← Registry.afterAll_append, ← Registry.afterAll_append]
    simp [leaving]
  refine ⟨c, rfl, hc, ?_⟩
  have hd : (s.complete o visits t records).desk =
      { registry  := s.shared.registry.afterAll (visitUses (visits.headD []) ++
          .revoke .publisher s.published :: (registerUses visits.tail records ++ leaving))
        published := c.tokens
        last      := some c
        told      := s.desk.told ++ [c] } := by
    rw [← hp]
    simp [complete, desk, send, emit, Channel.send, RunEvent.completed?, c, issued, revoked, failed]
  rw [hd]
  exact .publish (fun _ => user_of_mem_visitUses)
    ((hr ▸ hi).append fun _ => user_of_mem_reportUses) (congrArg Record.overall hc.symm)

-- The work of a run publishes, or it leaves the desk alone.
theorem work_desk (o : Orchestrator) (s : State) (run : RunId) (visits : Visits) :
    (∃ c, s.Publishes (.work run visits) c ∧
      s.desk.Step (s.uses o (.work run visits)) (some c) (s.after o (.work run visits)).desk) ∨
    (s.uses o (.work run visits) = [] ∧ (s.after o (.work run visits)).desk = s.desk) := by
  cases ht : s.task? run
  case none => exact .inr ⟨by simp [uses, ht], by simp [after, advance?, ht]⟩
  case some t =>
    obtain rfl := run_of_task? ht
    by_cases hp : ∃ records, t.stage = .settled (.finished records) ∧ s.generation = t.generation
    case pos =>
      obtain ⟨records, hs, hg⟩ := hp
      have ha : (s.after o (.work t.run visits)).desk =
          ((s.endTask t.run).complete o visits t records).desk := by
        have hg' : (s.endTask t.run).generation = t.generation := hg
        simp only [after, advance?, ht, Option.bind_some, step?, hs, Option.getD_some, finish, if_pos hg]
        rfl
      obtain ⟨c, hr, hc, hd⟩ := desk_complete o visits (s.endTask t.run) t records
      have hu : s.uses o (.work t.run visits) = s.completeUses o visits records := by
        simp only [uses, ht, hs, if_pos hg]
      rw [hu, ha]
      refine .inl ⟨c, ⟨⟨visits, ?_⟩, t, ?_, ?_⟩, hd⟩
      · rw [hr]
      · rw [hr]; exact ht
      · rw [hc]; exact hs
    case neg =>
      have hn (records) (hs : t.stage = .settled (.finished records)) : s.generation ≠ t.generation :=
        fun hg => hp ⟨records, hs, hg⟩
      refine .inr ⟨?_, ?_⟩
      · simp only [uses, ht]
        split
        case h_1 records hs => exact if_neg <| hn records hs
        case h_2 => rfl
      · simp only [after, advance?, ht, Option.bind_some]
        cases hs : s.step? o visits t
        case none => rfl
        case some => exact desk_of_step? hs hn

-- What a happening does to the desk, and which completion it brings.
theorem after_desk (o : Orchestrator) (s : State) (h : Happening) :
    ∃ told, s.desk.Step (s.uses o h) told (s.after o h).desk ∧ ∀ c ∈ told, s.Publishes h c := by
  have rest {h : Happening} (hu : s.uses o h = []) (hd : (s.after o h).desk = s.desk) :
      ∃ told, s.desk.Step (s.uses o h) told (s.after o h).desk ∧ ∀ c ∈ told, s.Publishes h c := by
    rw [hu, hd]
    exact ⟨none, .serve nofun, nofun⟩
  cases h
  case start text document => exact rest rfl (s.desk_start text document)
  case work run visits =>
    cases work_desk o s run visits
    case inl hp =>
      have ⟨c, hp, hd⟩ := hp
      refine ⟨some c, hd, ?_⟩
      rintro _ ⟨⟩
      exact hp
    case inr hn => exact rest hn.left hn.right
  case visit v =>
    have hd : (s.visit v).desk = { s.desk with registry := s.shared.registry.afterAll v.uses } := by
      rw [← s.shared.registry_visit]
      rfl
    rw [after, hd]
    exact ⟨none, .serve fun _ => Visit.user_of_mem_uses, nofun⟩
  case invoke token =>
    have hd : (s.invoke o token).2.desk =
        { s.desk with registry := s.shared.registry.afterAll (s.shared.registry.invokeUses token) } := by
      rw [← Registry.registry_invoke]
      rfl
    rw [after, hd]
    exact ⟨none, .serve fun _ => Registry.user_of_mem_invokeUses, nofun⟩
  case abandon => exact rest rfl (by simp only [after, abandon]; split <;> rfl)
  all_goals exact rest rfl rfl

-- What holds of the desk and the ledger in the beginning and is preserved by every step, holds always.
theorem desk_induction {motive : List Use → Desk → Prop} {ledger : List Use} (hm : motive ledger s.desk)
    (hs : ∀ {ledger uses told d d'}, motive ledger d → d.Step uses told d' → motive (ledger ++ uses) d')
    (history : List Happening) :
    motive (ledger ++ s.ledger o history) (s.afterAll o history).desk := by
  induction history generalizing s ledger
  case nil => simpa [State.ledger, afterAll] using hm
  case cons h history hi =>
    have ⟨_, hd, _⟩ := after_desk o s h
    simpa [State.ledger, afterAll_cons] using hi (hs hm hd)

-- The registry is what the ledger makes of it.
theorem registry_afterAll (o : Orchestrator) (s : State) (history : List Happening) :
    (s.afterAll o history).shared.registry = s.shared.registry.afterAll (s.ledger o history) := by
  induction history generalizing s
  case nil => rfl
  case cons h history hi =>
    have ⟨_, hd, _⟩ := after_desk o s h
    have hr : (s.after o h).shared.registry = s.shared.registry.afterAll (s.uses o h) := hd.registry_eq
    rw [ledger, Registry.afterAll_append, afterAll_cons, hi, hr]

-- What was told is never taken back.
theorem told_subset (o : Orchestrator) (s : State) (history : List Happening) :
    s.desk.told ⊆ (s.afterAll o history).desk.told := by
  induction history generalizing s
  case nil => exact List.Subset.refl _
  case cons h history hi =>
    have ⟨_, hd, _⟩ := after_desk o s h
    refine List.Subset.trans ?_ <| hi (s.after o h)
    rw [hd.told_eq]
    exact List.subset_append_left ..

theorem mem_told {c : Completion} : c ∈ s.desk.told ↔ .completed c ∈ s.channel.sent := by
  refine List.mem_filterMap.trans ⟨?_, fun h => ⟨_, h, rfl⟩⟩
  rintro ⟨event, h, he⟩
  cases event <;> cases he
  exact h

end State

end Orchestrator

end ModelAudit

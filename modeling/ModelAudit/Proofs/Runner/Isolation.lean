import ModelAudit.Proofs.Activity.Conclusion
import ModelAudit.Proofs.Runner.Cancellation
import ModelAudit.Check.Staged
import Mathlib.Data.List.Forall2

namespace ModelAudit

open Activity

-- Whatever it is asked, the check finds something, fails or panics, but it never ends as cancelled when
-- nobody asked it to stop.
def Check.Answers (check : Check) : Prop :=
  ∀ c, ∃ e, (check.run c).Concludes e ∧ e ≠ .value (.error .cancelled)

namespace Catalog

-- The record that the entry comes to if there is no other one.
inductive Finds (c : Catalog) (d : Document) : Entry → Record → Prop
  | malformed {raw e} : Finds c d (.malformed raw e) (.violated Record.specificationLabel e.message)
  | unknown {r} (h : c.get? r.check = none) :
    Finds c d (.request r) (.violated r.check (AuditError.unknownCheck r.check).message)
  | misdirected {r check e} (h : c.get? r.check = some check) (hc : Checker.ofRequest r = .error e) :
    Finds c d (.request r) (.violated r.check e.message)
  | failed {r check checker e} (h : c.get? r.check = some check)
    (hc : Checker.ofRequest r = .ok checker)
    (hr : (check.run ⟨d, r, checker⟩).Concludes (.value (.error e))) :
    Finds c d (.request r) (.violated r.check e.message)
  | panicked {r check checker message} (h : c.get? r.check = some check)
    (hc : Checker.ofRequest r = .ok checker)
    (hr : (check.run ⟨d, r, checker⟩).Concludes (.panicked message)) :
    Finds c d (.request r)
      (.violated r.check (AuditError.check r.check ("panicked: " ++ panicMessage message)).message)
  | found {r check checker record} (h : c.get? r.check = some check)
    (hc : Checker.ofRequest r = .ok checker)
    (hr : (check.run ⟨d, r, checker⟩).Concludes (.value (.ok record))) :
    Finds c d (.request r) record

-- The ways in which a request can come to no result.
inductive Troubled (c : Catalog) (d : Document) (r : Request) : Prop
  | unknown (h : c.get? r.check = none)
  | misdirected {s} (h : r.text? Checker.parameterName = some s) (hs : Checker.ofText? s = none)
  -- The check begins with a look at a parameter that is not there, or blank, or no text.
  | missing {check checker name e f} (h : c.get? r.check = some check)
    (hc : Checker.ofRequest r = .ok checker)
    (hr : check.run ⟨d, r, checker⟩ = Checking.ofExcept (r.require name) >>= f)
    (hn : r.require name = .error e)
  | failed {check checker e} (h : c.get? r.check = some check) (hc : Checker.ofRequest r = .ok checker)
    (hr : (check.run ⟨d, r, checker⟩).Concludes (.value (.error e)))
  | panicked {check checker message} (h : c.get? r.check = some check)
    (hc : Checker.ofRequest r = .ok checker)
    (hr : (check.run ⟨d, r, checker⟩).Concludes (.panicked message))

variable {c : Catalog} {d : Document} {r : Request} {record : Record}

theorem Finds.of_malformed {raw : Json} {e : SpecError} (h : c.Finds d (.malformed raw e) record) :
    record.check = Record.specificationLabel ∧ record.satisfied = false := by
  cases h
  exact ⟨rfl, rfl⟩

theorem Finds.of_troubled (h : c.Finds d (.request r) record) (ht : c.Troubled d r) :
    record.check = r.check ∧ record.satisfied = false ∧ record.trace = none := by
  cases h
  case found check checker h hc hr =>
    exfalso
    cases ht
    case unknown hn => simp [hn] at h
    case misdirected s hs hn => simp [Checker.ofRequest, hs, hn] at hc
    case missing check' checker' name e f h' hc' hr' hn =>
      cases h.symm.trans h'
      cases hc.symm.trans hc'
      rw [hr', hn] at hr
      cases hr
    case failed h' hc' hr' =>
      cases h.symm.trans h'
      cases hc.symm.trans hc'
      cases hr.unique hr'
    case panicked h' hc' hr' =>
      cases h.symm.trans h'
      cases hc.symm.trans hc'
      cases hr.unique hr'
  all_goals exact ⟨rfl, rfl, rfl⟩

theorem ofRequest_ne_cancelled {e : AuditError} (h : Checker.ofRequest r = .error e) : e ≠ .cancelled := by
  rintro rfl
  unfold Checker.ofRequest at h
  split at h
  · cases h
  · split at h <;> cases h

theorem settle_error {e : AuditError} (check : String) (h : e ≠ .cancelled) :
    (settle check (.error e)).Concludes (.value (.ok (.violated check e.message))) := by
  cases e
  case cancelled => exact absurd rfl h
  all_goals exact .done

theorem runRequest_unknown (h : c.get? r.check = none) :
    c.runRequest d r = Activity.done (.error (.unknownCheck r.check)) := by
  rw [runRequest, h]
  rfl

theorem runRequest_misdirected {check : Check} {e : AuditError} (h : c.get? r.check = some check)
    (hr : Checker.ofRequest r = .error e) : c.runRequest d r = Activity.done (.error e) := by
  rw [runRequest, h]
  dsimp only
  rw [hr]
  rfl

theorem runRequest_of_get? {check : Check} {checker : Checker} (h : c.get? r.check = some check)
    (hr : Checker.ofRequest r = .ok checker) :
    c.runRequest d r = Activity.rescue (check.run ⟨d, r, checker⟩) fun message =>
      .error (.check r.check ("panicked: " ++ panicMessage message)) := by
  rw [runRequest, h]
  dsimp only
  rw [hr]

theorem exists_finds (hc : ∀ check ∈ c.checks, check.Answers) (d : Document) (e : Entry) :
    ∃ record, c.Finds d e record ∧ (c.evaluate d e).Concludes (.value (.ok record)) := by
  cases e
  case malformed => exact ⟨_, .malformed, .done⟩
  case request r =>
    rw [evaluate]
    cases hg : c.get? r.check
    case none =>
      rw [runRequest_unknown hg]
      exact ⟨_, .unknown hg, .bind .done <| settle_error _ nofun⟩
    case some check =>
      cases hr : Checker.ofRequest r
      case error e =>
        rw [runRequest_misdirected hg hr]
        exact ⟨_, .misdirected hg hr, .bind .done <| settle_error _ <| ofRequest_ne_cancelled hr⟩
      case ok checker =>
        rw [runRequest_of_get? hg hr]
        have ⟨ending, he, hn⟩ := hc check (List.mem_of_find?_eq_some hg) ⟨d, r, checker⟩
        cases ending
        case waiting => exact absurd he Concludes.not_waiting
        case panicked => exact ⟨_, .panicked hg hr he, .bind (he.rescue_panicked _) <| settle_error _ nofun⟩
        case value result =>
          cases result
          case ok record => exact ⟨_, .found hg hr he, .bind (he.rescue_value _) .done⟩
          case error e =>
            have hn : e ≠ .cancelled := fun h => hn <| by rw [h]
            exact ⟨_, .failed hg hr he, .bind (he.rescue_value _) <| settle_error _ hn⟩

-- Entries that come to records one by one come to them in a row.
theorem performFrom_runEntries_of_concludes {es : List Entry} {records : List Record} {p : Progress}
    (h : List.Forall₂ (fun e record => (c.evaluate d e).Concludes (.value (.ok record))) es records)
    (hp : p.raised = false) : ((c.runEntries d es).performFrom .never p).records = records ∧
      ((c.runEntries d es).performFrom .never p).ending = .value (.ok ()) := by
  induction h generalizing p
  case nil => exact ⟨rfl, rfl⟩
  case cons e record es records he _ hi =>
    rw [runEntries_cons]
    simp only [performFrom, sees_never hp]
    obtain ⟨q, hq, hl, hn⟩ := he.performFrom_bind (c.report d es)
      (p := { p with polls := p.polls + 1, raised := false }) rfl
    obtain ⟨hl', hn'⟩ := hi (p := { q with deliveries := q.deliveries + 1 }) hq
    exact ⟨hl.trans <| congrArg _ hl', hn.trans hn'⟩

-- The records of a run that nobody asks to stop are found in its entries, one in each.
theorem finds_of_runner (hc : ∀ check ∈ c.checks, check.Answers) (spec : CheckSet) (d : Document) :
    List.Forall₂ (c.Finds d) spec.entries ((c.runner spec d).perform .never).records := by
  choose f hf he using exists_finds hc d
  have hr := performFrom_runEntries_of_concludes (p := {})
    (List.forall₂_map_right_iff.mpr <| List.forall₂_same.mpr fun e (_ : e ∈ spec.entries) => he e) rfl
  have hd : ((c.runner spec d).perform .never).records = spec.entries.map f := hr.left
  rw [hd]
  exact List.forall₂_map_right_iff.mpr <| List.forall₂_same.mpr fun e _ => hf e

-- What comes of a run that nobody asks to stop.
structure Isolated (c : Catalog) (d : Document) (spec : CheckSet) (records : List Record) : Prop where
  delivers  : ((c.runner spec d).perform .never).records = records
  ends      : ((c.runner spec d).perform .never).ending = .value (.ok ())
  finds     : List.Forall₂ (c.Finds d) spec.entries records
  -- The record is the one of a run that has nothing else to do.
  alone     : ∀ (i : Nat) e, spec.entries[i]? = some e → ∀ globals,
    ∃ record, records[i]? = some record ∧
      ((c.runner ⟨globals, [e]⟩ d).perform .never).records = [record] ∧
      ((c.runner ⟨globals, [e]⟩ d).perform .never).ending = .value (.ok ())
  malformed : ∀ (i : Nat) raw e, spec.entries[i]? = some (.malformed raw e) →
    ∃ record, records[i]? = some record ∧
      record.check = Record.specificationLabel ∧ record.satisfied = false
  troubled  : ∀ (i : Nat) r, spec.entries[i]? = some (.request r) → c.Troubled d r →
    ∃ record, records[i]? = some record ∧ record.check = r.check ∧ record.satisfied = false ∧
      record.trace = none

theorem isolation (hc : ∀ check ∈ c.checks, check.Answers) (spec : CheckSet) (d : Document) :
    ∃ records, c.Isolated d spec records := by
  choose f hf he using exists_finds hc d
  have hi {i : Nat} {e : Entry} (h : spec.entries[i]? = some e) :
      (spec.entries.map f)[i]? = some (f e) := by
    rw [List.getElem?_map, h]
    rfl
  have hr (es : List Entry) := performFrom_runEntries_of_concludes (p := {})
    (List.forall₂_map_right_iff.mpr <| List.forall₂_same.mpr fun e (_ : e ∈ es) => he e) rfl
  exact ⟨spec.entries.map f, {
    delivers  := hr spec.entries |>.left
    ends      := hr spec.entries |>.right
    finds     := List.forall₂_map_right_iff.mpr <| List.forall₂_same.mpr fun e _ => hf e
    alone     := fun _ e h _ => ⟨f e, hi h, hr [e]⟩
    malformed := fun _ raw e h => ⟨_, hi h, (hf <| .malformed raw e).of_malformed⟩
    troubled  := fun _ r h ht => ⟨_, hi h, (hf <| .request r).of_troubled ht⟩ }⟩

theorem answers_builtin : ∀ check ∈ builtin.checks, check.Answers := by
  intro check hm c
  have hg : builtin.get? check.shortName = some check := by
    simp only [checks_builtin, List.mem_cons, List.not_mem_nil, or_false] at hm
    obtain rfl | rfl | rfl := hm <;> rfl
  have ⟨result, hn, hr⟩ := (heedful_of_get?_builtin hg c).exists_concludes
  exact ⟨.value result, hr, fun he => hn <| Ending.value.inj he⟩

theorem answers_register (hc : ∀ check ∈ c.checks, check.Answers) {check : Check} (h : check.Answers) :
    ∀ check' ∈ (c.register check).checks, check'.Answers := by
  intro check' hm
  rcases List.mem_append.mp hm with hm | hm
  · exact hc check' <| List.mem_filter.mp hm |>.left
  · exact List.mem_singleton.mp hm ▸ h

-- Each of the first six entries comes to no result in another way, and the last one finds a dead end.
theorem isolation_among_failures :
    let c := builtin
      |>.register (.staged "panics" "" <| .panics none)
      |>.register (.staged "fails" "" <| .fails <| .io "gone")
    let d : Document := { name := "m", templates := [.startingIn "t" "l"] }
    let request (name : String) (parameters : List (String × Json)) := Entry.request ⟨name, parameters⟩
    let spec : CheckSet := {
      globals := []
      entries := [.malformed .null (.entryNotObject 0), request "nonsense" [], request "receivesyncs" [],
        request "deadlock-locations" [("checker", .text "psychic")], request "fails" [],
        request "panics" [], request "deadlock-locations" []] }
    ∃ records, c.Isolated d spec records ∧
      records.map (fun r => (r.check, r.satisfied, r.hasTrace)) = [("specification", false, false),
        ("nonsense", false, false), ("receivesyncs", false, false), ("deadlock-locations", false, false),
        ("fails", false, false), ("panics", false, false), ("deadlock-locations", false, true)] := by
  intro c d request spec
  have hc : ∀ check ∈ c.checks, check.Answers :=
    answers_register (answers_register answers_builtin fun _ => ⟨.panicked none, .panic, nofun⟩)
      fun _ => ⟨.value (.error (.io "gone")), .done, nofun⟩
  have ⟨records, h⟩ := isolation hc spec d
  refine ⟨records, h, ?_⟩
  rw [← h.delivers]
  decide +kernel

end Catalog

end ModelAudit

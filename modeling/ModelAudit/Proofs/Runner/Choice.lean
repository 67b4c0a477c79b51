import ModelAudit.Proofs.Check.ReceivedSends
import ModelAudit.Proofs.Runner.Isolation
import ModelAudit.Proofs.Spec.Format

namespace ModelAudit

open Activity

variable {c : Catalog} {d : Document} {r : Request} {check : Check} {record : Record} {checker : Checker}
  {e : AuditError} {s : String}

namespace Request

-- The request chooses a checker by a name that none has.
def Misnames (r : Request) : Prop :=
  ∃ s, r.Gives "checker" s ∧ s ≠ "symbolic" ∧ s ≠ "concrete"

-- The checker that the request is to be examined with. Only a text is a choice.
inductive Picks (r : Request) : Checker → Prop
  | symbolic (h : r.Gives "checker" "symbolic") : Picks r .symbolic
  | concrete (h : r.Gives "checker" "concrete") : Picks r .concrete
  | default (h : ∀ s, ¬r.Gives "checker" s) : Picks r .symbolic

theorem misnames_or_picks (r : Request) : r.Misnames ∨ ∃ checker, r.Picks checker := by
  by_cases h : ∃ s, r.Gives "checker" s
  case neg => exact .inr ⟨.symbolic, .default <| not_exists.mp h⟩
  case pos =>
    obtain ⟨s, hs⟩ := h
    by_cases hn : s = "symbolic"
    case pos => exact .inr ⟨.symbolic, .symbolic <| hn ▸ hs⟩
    case neg =>
      by_cases hn' : s = "concrete"
      case pos => exact .inr ⟨.concrete, .concrete <| hn' ▸ hs⟩
      case neg => exact .inl ⟨s, hs, hn, hn'⟩

theorem text?_eq_none_iff : r.text? s = none ↔ ∀ text, ¬r.Gives s text := by
  simp only [Option.eq_none_iff_forall_ne_some, ne_eq, text?_eq_some_iff]

end Request

namespace Checker

theorem ofRequest_of_gives (h : r.Gives "checker" s) (hn : s ≠ "symbolic") (hn' : s ≠ "concrete") :
    ofRequest r = .error (.check r.check <| unknown s) := by
  have hs : ofText? s = none := by simp [ofText?, text, hn, hn']
  rw [ofRequest, parameterName, Request.text?_eq_some_iff.mpr h]
  dsimp only
  rw [hs]

theorem ofRequest_of_picks (h : r.Picks checker) : ofRequest r = .ok checker := by
  rw [ofRequest, parameterName]
  cases h
  case symbolic h => rw [Request.text?_eq_some_iff.mpr h]; rfl
  case concrete h => rw [Request.text?_eq_some_iff.mpr h]; rfl
  case default h => rw [Request.text?_eq_none_iff.mpr h]

end Checker

-- The entry is a request of that kind.
def Entry.asks (p : Request → Bool) : Entry → Bool
  | .request r => p r
  | .malformed .. => false

theorem Entry.asks_iff {p : Request → Bool} {e : Entry} : e.asks p = true ↔ ∃ r, e = .request r ∧ p r = true := by
  cases e <;> simp [asks]

theorem exists_of_any {ε α : Type} {result : Except ε α} {p : α → Bool} (h : result.toOption.any p = true) :
    ∃ a, result = .ok a ∧ p a = true := by
  cases result
  case error => cases h
  case ok a => exact ⟨a, rfl, h⟩

theorem exists_getElem?_of_forall₂ {α β : Type} {R : α → β → Prop} {as : List α} {bs : List β} {i : Nat} {a : α}
    (h : List.Forall₂ R as bs) (ha : as[i]? = some a) : ∃ b, bs[i]? = some b ∧ R a b := by
  induction h generalizing i
  case nil => cases ha
  case cons hr _ hi =>
    cases i
    case zero => cases ha; exact ⟨_, rfl, hr⟩
    case succ => exact hi ha

-- The record says what the check has come to.
inductive Check.Decides (check : Check) (c : Context) : Record → Prop
  | found {found : Record} (h : (check.run c).Concludes (.value (.ok found))) : Decides check c found
  | failed {error : AuditError} (h : (check.run c).Concludes (.value (.error error))) :
    Decides check c (.ofError c.request.check error)
  | panicked {message} (h : (check.run c).Concludes (.panicked message)) :
    Decides check c (.ofError c.request.check <|
      .check c.request.check ("panicked: " ++ panicMessage message))

namespace Catalog

-- The request comes to the record at once, and it would even if the check did something else.
def Unevaluated (c : Catalog) (d : Document) (r : Request) (check : Check) (record : Record) : Prop :=
  ∀ run, (c.register { check with run }).evaluate d (.request r) = .done (.ok record)

-- What the record of a request is to be.
structure Heeds (c : Catalog) (d : Document) (r : Request) (check : Check) (record : Record) : Prop where
  refused     : ∀ s, r.Gives "checker" s → s ≠ "symbolic" → s ≠ "concrete" → record.satisfied = false ∧
    record = .ofError r.check (.check r.check ("unknown checker type '" ++ s ++ "'"))
  unevaluated : c.Unevaluated d r check record ↔ r.Misnames
  decided     : ∀ checker, r.Picks checker → check.Decides ⟨d, r, checker⟩ record

section Registered

variable (hg : c.get? r.check = some check)

include hg

theorem get?_register_run (run : Context → Checking Record) :
    (c.register { check with run }).get? r.check = some { check with run } := by
  have hn : check.shortName = r.check := by simpa using List.find?_some hg
  exact hn ▸ c.get?_register_self { check with run }

theorem unevaluated_of_error (he : Checker.ofRequest r = .error e) :
    c.Unevaluated d r check (.ofError r.check e) := by
  intro run
  rw [evaluate, runRequest_misdirected (get?_register_run hg run) he]
  have hn := ofRequest_ne_cancelled he
  cases e
  case cancelled => exact absurd rfl hn
  all_goals rfl

-- A check that is run has a say in what comes of it.
theorem not_unevaluated_of_ok (hc : Checker.ofRequest r = .ok checker) :
    ¬c.Unevaluated d r check record := by
  intro h
  have he (record' : Record) : record' = record := by
    have hr := h fun _ => pure record'
    rw [evaluate, runRequest_of_get? (get?_register_run hg _) hc] at hr
    cases hr
    rfl
  have hne : Record.passed "" "" ≠ .violated "" "" := by decide
  exact hne <| (he _).trans (he _).symm

variable (h : c.Finds d (.request r) record)

include h

theorem Finds.eq_of_error (he : Checker.ofRequest r = .error e) : record = .ofError r.check e := by
  cases h
  case unknown hn => exact nomatch hn.symm.trans hg
  case misdirected he' => cases he.symm.trans he'; rfl
  case failed hc _ => exact nomatch he.symm.trans hc
  case panicked hc _ => exact nomatch he.symm.trans hc
  case found hc _ => exact nomatch he.symm.trans hc

theorem Finds.decides (hc : Checker.ofRequest r = .ok checker) : check.Decides ⟨d, r, checker⟩ record := by
  cases h
  case unknown hn => exact nomatch hn.symm.trans hg
  case misdirected he => exact nomatch hc.symm.trans he
  case failed hg' hc' hr => cases hg.symm.trans hg'; cases hc.symm.trans hc'; exact .failed hr
  case panicked hg' hc' hr => cases hg.symm.trans hg'; cases hc.symm.trans hc'; exact .panicked hr
  case found hg' hc' hr => cases hg.symm.trans hg'; cases hc.symm.trans hc'; exact .found hr

theorem Finds.heeds : c.Heeds d r check record := by
  cases r.misnames_or_picks
  case inl hm =>
    obtain ⟨s, hs, hn, hn'⟩ := hm
    have he := Checker.ofRequest_of_gives hs hn hn'
    cases h.eq_of_error hg he
    constructor
    case refused =>
      intro s' hs' _ _
      cases hs.symm.trans hs'
      exact ⟨rfl, rfl⟩
    case unevaluated => exact iff_of_true (unevaluated_of_error hg he) ⟨s, hs, hn, hn'⟩
    case decided => exact fun _ hp => nomatch he.symm.trans <| Checker.ofRequest_of_picks hp
  case inr hp =>
    obtain ⟨checker, hp⟩ := hp
    have hc := Checker.ofRequest_of_picks hp
    have hn : ¬r.Misnames := fun ⟨s, hs, hn, hn'⟩ =>
      nomatch hc.symm.trans <| Checker.ofRequest_of_gives hs hn hn'
    constructor
    case refused => exact fun s hs hm hm' => absurd ⟨s, hs, hm, hm'⟩ hn
    case unevaluated => exact iff_of_false (not_unevaluated_of_ok hg hc) hn
    case decided => exact fun _ hp' => h.decides hg <| Checker.ofRequest_of_picks hp'

end Registered

-- A run that nobody asks to stop refuses a request that names a checker which does not exist, whether it is the
-- item or the text as a whole that says so, and does not run the check. Every other request is decided by the
-- check, and the checker is the one that is named, or the symbolic one if what stands there is no text.
theorem checker_choice (hc : ∀ check ∈ c.checks, check.Answers) {text : String} {spec : CheckSet} {i : Nat}
    (hp : CheckSet.parse text = .ok spec) (hi : spec.entries[i]? = some (.request r))
    (hg : c.get? r.check = some check) (d : Document) :
    (∃ root items fields, CheckSet.Writes text root items ∧ items[i]? = some (.object fields) ∧
        Json.lookup "checker" r.parameters =
          (Json.lookup "checker" fields).or (Json.lookup "checker" root)) ∧
      ∃ record, ((c.runner spec d).perform .never).records[i]? = some record ∧ c.Heeds d r check record := by
  constructor
  case left =>
    obtain ⟨root, items, fields, hw, hf, hl⟩ := CheckSet.exists_item_of_request hp hi
    exact ⟨root, items, fields, hw, hf, hl "checker"⟩
  case right =>
    obtain ⟨record, hm, hf⟩ := exists_getElem?_of_forall₂ (finds_of_runner hc spec d) hi
    exact ⟨record, hm, hf.heeds hg⟩

-- The first request overrides what the text as a whole says, and the second one does not.
theorem checker_choice_of_overridden :
    let text := "\x7b\"checker\": \"concolic\", \"checks\": [" ++
      "\x7b\"type\": \"deadlock-locations\", \"checker\": \"concrete\"\x7d, " ++
      "\x7b\"type\": \"deadlock-locations\"\x7d]\x7d"
    let d : Document := { name := "m", templates := [.startingIn "t" "l"] }
    ∃ spec r r' record record', CheckSet.parse text = .ok spec ∧
      spec.entries[0]? = some (.request r) ∧ r.Picks .concrete ∧
      spec.entries[1]? = some (.request r') ∧ r'.Misnames ∧
      ((builtin.runner spec d).perform .never).records[0]? = some record ∧
      builtin.Heeds d r Check.deadlockLocations record ∧
      ((builtin.runner spec d).perform .never).records[1]? = some record' ∧
      builtin.Heeds d r' Check.deadlockLocations record' := by
  intro text d
  let choosing (checker : String) (r : Request) : Bool :=
    r.check == "deadlock-locations" && r.text? "checker" == some checker
  have h : (CheckSet.parse text).toOption.any (fun spec =>
      spec.entries[0]?.any (·.asks <| choosing "concrete") &&
        spec.entries[1]?.any (·.asks <| choosing "concolic")) = true := by decide +kernel
  obtain ⟨spec, hp, h⟩ := exists_of_any h
  simp only [Bool.and_eq_true, Option.any_eq_true, Entry.asks_iff] at h
  obtain ⟨⟨_, hi, r, rfl, hr⟩, _, hi', r', rfl, hr'⟩ := h
  simp only [choosing, Bool.and_eq_true, beq_iff_eq, Request.text?_eq_some_iff] at hr hr'
  obtain ⟨⟨hn, hs⟩, hn', hs'⟩ := And.intro hr hr'
  have hg : builtin.get? "deadlock-locations" = some Check.deadlockLocations := rfl
  obtain ⟨-, record, hm, hh⟩ := checker_choice answers_builtin hp hi (hn ▸ hg) d
  obtain ⟨-, record', hm', hh'⟩ := checker_choice answers_builtin hp hi' (hn' ▸ hg) d
  have hu : r'.Misnames := ⟨_, hs', by decide, by decide⟩
  exact ⟨spec, r, r', record, record', hp, hi, .concrete hs, hi', hu, hm, hh, hm', hh'⟩

-- A choice that is no text is passed over, whether it is the item or the text as a whole that has it.
theorem choices_passed_over :
    let text := "\x7b\"checker\": 7, \"checks\": [\x7b\"type\": \"template-locations\"\x7d, " ++
      "\x7b\"type\": \"template-locations\", \"checker\": null\x7d]\x7d"
    let d : Document := { name := "m" }
    ∃ spec, CheckSet.parse text = .ok spec ∧
      (∀ e ∈ spec.entries, ∃ r, e = .request r ∧ r.check = "template-locations" ∧
        (Json.lookup "checker" r.parameters).isSome ∧ ∀ s, ¬r.Gives "checker" s) ∧
      ((builtin.runner spec d).perform .never).records =
        List.replicate 2 (.passed "template-locations" "All locations reachable") := by
  intro text d
  let overlooked (r : Request) : Bool :=
    r.check == "template-locations" && (Json.lookup "checker" r.parameters).isSome && (r.text? "checker").isNone
  have h : (CheckSet.parse text).toOption.any (fun spec => spec.entries.all (·.asks overlooked) &&
      ((builtin.runner spec d).perform .never).records ==
        List.replicate 2 (.passed "template-locations" "All locations reachable")) = true := by
    decide +kernel
  obtain ⟨spec, hp, h⟩ := exists_of_any h
  simp only [Bool.and_eq_true, List.all_eq_true, beq_iff_eq] at h
  refine ⟨spec, hp, fun e he => ?_, h.right⟩
  obtain ⟨r, hr, ho⟩ := Entry.asks_iff.mp <| h.left e he
  simp only [overlooked, Bool.and_eq_true, beq_iff_eq, Option.isNone_iff_eq_none] at ho
  exact ⟨r, hr, ho.left.left, ho.left.right, Request.text?_eq_none_iff.mp ho.right⟩

end Catalog

end ModelAudit

import ModelAudit.Proofs.Check.Verdicts
import ModelAudit.Proofs.Runner.Isolation

namespace ModelAudit

namespace Request

-- The same request, but with the choice of a checker.
def choosing (checker : Checker) (r : Request) : Request :=
  { r with parameters := Json.insert Checker.parameterName (.text checker.text) r.parameters }

variable {r : Request} {checker : Checker}

theorem text?_choosing (r : Request) (checker : Checker) :
    (r.choosing checker).text? Checker.parameterName = some checker.text := by
  rw [text?, choosing, Json.lookup_insert_self]

theorem text?_choosing_of_ne {name : String} (h : name ≠ Checker.parameterName) :
    (r.choosing checker).text? name = r.text? name := by
  rw [text?, choosing, Json.lookup_insert_of_ne h, text?]

theorem ofRequest_choosing (r : Request) (checker : Checker) :
    Checker.ofRequest (r.choosing checker) = .ok checker := by
  rw [Checker.ofRequest, text?_choosing]
  dsimp only
  rw [Checker.ofText?_text]

theorem counterpart (d : Document) (r : Request) :
    Context.Counterpart ⟨d, r.choosing .symbolic, .symbolic⟩ ⟨d, r.choosing .concrete, .concrete⟩ where
  document := rfl
  check    := rfl
  text?    := fun _ hn => (text?_choosing_of_ne hn).trans (text?_choosing_of_ne hn).symm
  symbolic := rfl
  concrete := rfl

end Request

-- A malformed entry chooses nothing.
def Entry.choosing (checker : Checker) : Entry → Entry
  | request r => request (r.choosing checker)
  | malformed raw e => malformed raw e

def CheckSet.choosing (checker : Checker) (spec : CheckSet) : CheckSet :=
  { spec with entries := spec.entries.map (Entry.choosing checker) }

namespace Catalog

variable {c : Catalog} {d : Document}

theorem impartial_builtin : ∀ check ∈ builtin.checks, check.Impartial := by
  intro check hm
  simp only [checks_builtin, List.mem_cons, List.not_mem_nil, or_false] at hm
  obtain rfl | rfl | rfl := hm
  · exact Check.impartial_templateLocations
  · exact Check.impartial_receiveSyncs
  · exact Check.impartial_deadlockLocations

-- What becomes of a verdict is a record, and a verdict that is an error becomes the same one.
theorem settle_agree {result result' : Except AuditError Record} (h : Check.Agree result result')
    (check : String) : ∃ record record', (settle check result).ComesTo (.ok record) ∧
      (settle check result').ComesTo (.ok record') ∧ record.ReducesTo record' := by
  cases h
  case record record record' h => exact ⟨record, record', .pure _, .pure _, h⟩
  case error e he => exact ⟨_, _, settle_error check he, settle_error check he, .refl rfl⟩

theorem evaluate_agree (hc : ∀ check ∈ c.checks, check.Impartial) (d : Document) (e : Entry) :
    ∃ record record', (c.evaluate d (e.choosing .symbolic)).ComesTo (.ok record) ∧
      (c.evaluate d (e.choosing .concrete)).ComesTo (.ok record') ∧ record.ReducesTo record' := by
  cases e
  case malformed => exact ⟨_, _, .pure _, .pure _, .refl rfl⟩
  case request r =>
    simp only [Entry.choosing, evaluate]
    cases hg : c.get? r.check
    case none =>
      rw [runRequest_unknown (r := r.choosing .symbolic) hg, runRequest_unknown (r := r.choosing .concrete) hg]
      obtain ⟨_, _, h, h', hr⟩ := settle_agree (.error (e := .unknownCheck r.check) <| by simp) r.check
      exact ⟨_, _, Activity.Concludes.bind .done h, Activity.Concludes.bind .done h', hr⟩
    case some check =>
      obtain ⟨_, _, hs, hs', ha⟩ := hc check (List.mem_of_find?_eq_some hg) <| r.counterpart d
      obtain ⟨_, _, h, h', hr⟩ := settle_agree ha r.check
      rw [runRequest_of_get? (r := r.choosing .symbolic) hg (r.ofRequest_choosing _),
        runRequest_of_get? (r := r.choosing .concrete) hg (r.ofRequest_choosing _)]
      exact ⟨_, _, (hs.rescue_value _).bind h, (hs'.rescue_value _).bind h', hr⟩

-- What the runs of the two checkers come to, each in full.
structure Agreed (spec : CheckSet) (symbolic concrete : Performance (Except AuditError Unit)) : Prop where
  ends    : symbolic.ending = .value (.ok ()) ∧ concrete.ending = .value (.ok ())
  length  : symbolic.records.length = spec.entries.length
  records : List.Forall₂ Record.ReducesTo symbolic.records concrete.records

-- Here every entry is changed before the run.
theorem perform_runner_map {g : Entry → Entry} {f : Entry → Record}
    (h : ∀ e, (c.evaluate d (g e)).ComesTo (.ok (f e))) (globals : List (String × Json)) (es : List Entry) :
    ((c.runner ⟨globals, es.map g⟩ d).perform .never).records = es.map f ∧
      ((c.runner ⟨globals, es.map g⟩ d).perform .never).ending = .value (.ok ()) := by
  refine performFrom_runEntries_of_concludes (p := {}) ?_ rfl
  rw [List.forall₂_map_left_iff, List.forall₂_map_right_iff, List.forall₂_same]
  exact fun e _ => h e

theorem checkers_agree (spec : CheckSet) (d : Document) :
    Agreed spec ((builtin.runner (spec.choosing .symbolic) d).perform .never)
      ((builtin.runner (spec.choosing .concrete) d).perform .never) := by
  choose f f' hf hf' hr using evaluate_agree impartial_builtin d
  have ⟨hl, he⟩ := perform_runner_map hf spec.globals spec.entries
  have ⟨hl', he'⟩ := perform_runner_map hf' spec.globals spec.entries
  constructor
  case ends => exact ⟨he, he'⟩
  case length => exact hl ▸ List.length_map ..
  case records =>
    refine hl ▸ hl' ▸ ?_
    rw [List.forall₂_map_left_iff, List.forall₂_map_right_iff, List.forall₂_same]
    exact fun e _ => hr e

end Catalog

end ModelAudit

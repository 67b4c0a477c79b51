import ModelAudit.Proofs.Check.Cancellation
import ModelAudit.Runner.Basic

namespace ModelAudit

open Activity

namespace Catalog

variable {c : Catalog} {d : Document}

-- What an entry comes to between two looks at the flag.
def report (c : Catalog) (d : Document) (es : List Entry) :
    Except AuditError Record → Activity (Except AuditError Unit)
  | .ok record =>
    .emit (.checkFinished record.check record.satisfied record.hasTrace)
      (.deliver record (c.runEntries d es))
  | .error e => .done (.error e)

theorem runEntries_cons (c : Catalog) (d : Document) (e : Entry) (es : List Entry) :
    c.runEntries d (e :: es) = Activity.poll fun cancelled =>
      if cancelled then .done (.error .cancelled)
      else Activity.bind (c.evaluate d e) (c.report d es) := by
  refine congrArg Activity.poll <| funext fun cancelled => ?_
  cases cancelled
  case true => rfl
  case false =>
    show Activity.bind (c.evaluate d e) _ = Activity.bind (c.evaluate d e) (c.report d es)
    refine congrArg (Activity.bind _) <| funext fun result => ?_
    cases result <;> rfl

theorem runRequest_heedful (d : Document) (r : Request) : (builtin.runRequest d r).Heedful := by
  unfold runRequest
  split
  · exact .throw nofun
  · rename_i check hc
    split
    · rename_i e he
      refine .throw fun h => ?_
      subst h
      simp only [Checker.ofRequest] at he
      split at he <;> try cases he
      split at he <;> cases he
    · have hh := heedful_of_get?_builtin hc ⟨d, r, ‹_›⟩
      exact (hh.rescue_eq _).symm ▸ hh

-- Every error of a check becomes a record, apart from the one that says it was cancelled.
theorem evaluate_prompt (d : Document) (e : Entry) :
    Prompt (fun result => ∃ record, result = .ok record) 0 (builtin.evaluate d e) := by
  cases e
  case malformed => exact .done ⟨_, rfl⟩
  case request r =>
    refine Prompt.bind (n := 0) (runRequest_heedful d r) rfl fun result hr => ?_
    rcases result with e | record
    case ok => exact .done ⟨record, rfl⟩
    case error =>
      cases e
      case cancelled => exact absurd rfl hr
      all_goals exact .done ⟨_, rfl⟩

theorem runEntries_prompt (d : Document) (es : List Entry) :
    Prompt (· = .ok ()) es.length (builtin.runEntries d es) := by
  induction es
  case nil => exact .done rfl
  case cons e es hi =>
    rw [runEntries_cons]
    refine .poll rfl <| evaluate_prompt d e |>.bind rfl ?_
    rintro _ ⟨record, rfl⟩
    exact .emit <| .deliver hi

-- The flag does not show in the beginning, and there are l records already.
theorem performFrom_runEntries (d : Document) (e : Entry) (es : List Entry) (timing : Timing)
    {k l : Nat} :
    (∃ k', timing k' l ∧
        ((builtin.runEntries d (e :: es)).performFrom timing ⟨k, l, false⟩).records = [] ∧
        ((builtin.runEntries d (e :: es)).performFrom timing ⟨k, l, false⟩).ending =
          .value (.error .cancelled)) ∨
      ∃ record k', timing k l = false ∧
        ((builtin.runEntries d (e :: es)).performFrom timing ⟨k, l, false⟩).records =
          record :: ((builtin.runEntries d es).performFrom timing ⟨k', l + 1, false⟩).records ∧
        ((builtin.runEntries d (e :: es)).performFrom timing ⟨k, l, false⟩).ending =
          ((builtin.runEntries d es).performFrom timing ⟨k', l + 1, false⟩).ending := by
  rw [runEntries_cons]
  simp only [performFrom, sees, Bool.false_or]
  cases ht : timing k l
  case true => exact .inl ⟨k, ht, rfl, rfl⟩
  case false =>
    cases evaluate_prompt d e |>.performFrom_bind (f := builtin.report d es) (k := k + 1) (l := l) rfl
      timing
    case inl h => exact .inl h
    case inr h =>
      obtain ⟨_, k', ⟨record, rfl⟩, hl, he⟩ := h
      exact .inr ⟨record, k', rfl, hl, he⟩

-- An entry that is interrupted comes to no record.
theorem length_lt_of_cancelled (d : Document) (es : List Entry) (timing : Timing) {k l : Nat}
    (h : ((builtin.runEntries d es).performFrom timing ⟨k, l, false⟩).ending =
      .value (.error .cancelled)) :
    ((builtin.runEntries d es).performFrom timing ⟨k, l, false⟩).records.length < es.length := by
  induction es generalizing k l
  case nil => cases h
  case cons e es hi =>
    cases performFrom_runEntries d e es timing (k := k) (l := l)
    case inl hc =>
      have ⟨_, _, hl, _⟩ := hc
      simp [hl]
    case inr hr =>
      have ⟨_, _, _, hl, he⟩ := hr
      rw [hl]
      exact Nat.succ_lt_succ <| hi (he ▸ h)

-- Here the flag is raised as soon as there are n records.
theorem performFrom_after (d : Document) (es : List Entry) {k l n : Nat} (h : l ≤ n) :
    ((builtin.runEntries d es).performFrom (.after n) ⟨k, l, false⟩).records.length =
        min (n - l) es.length ∧
      (((builtin.runEntries d es).performFrom (.after n) ⟨k, l, false⟩).ending =
        .value (.error .cancelled) ↔ n - l < es.length) := by
  induction es generalizing k l
  case nil => exact ⟨(Nat.min_zero _).symm, nofun, nofun⟩
  case cons e es hi =>
    cases performFrom_runEntries d e es (.after n) (k := k) (l := l)
    case inl hc =>
      have ⟨_, ht, hl, he⟩ := hc
      have hn : n - l = 0 := Nat.sub_eq_zero_of_le <| of_decide_eq_true ht
      simp [hl, he, hn]
    case inr hr =>
      have ⟨_, k', ht, hl, he⟩ := hr
      have hn : l < n := Nat.lt_of_not_le <| of_decide_eq_false ht
      have ⟨hl', he'⟩ := hi (k := k') (Nat.succ_le_of_lt hn)
      rw [hl, he, List.length_cons, List.length_cons, hl', he']
      omega

-- A run over the checks of the library that is asked to stop delivers the records that it would deliver
-- anyway up to the look that shows the flag raised, and then it is cancelled. Raised between two
-- records, the flag shows at the next entry.
theorem runner_cancellation (spec : CheckSet) (d : Document) :
    (∀ timing,
      Obeys timing (builtin.runner spec d) spec.entries.length ∧
        (((builtin.runner spec d).perform timing).ending = .value (.error .cancelled) →
          ((builtin.runner spec d).perform timing).records.length < spec.entries.length)) ∧
      ∀ n,
        ((builtin.runner spec d).perform (.after n)).records.length = min n spec.entries.length ∧
          (((builtin.runner spec d).perform (.after n)).ending = .value (.error .cancelled) ↔
            n < spec.entries.length) :=
  ⟨fun timing =>
    ⟨(runEntries_prompt d spec.entries).obeys timing, length_lt_of_cancelled d spec.entries timing⟩,
    fun n => performFrom_after d spec.entries <| Nat.zero_le n⟩

end Catalog

end ModelAudit

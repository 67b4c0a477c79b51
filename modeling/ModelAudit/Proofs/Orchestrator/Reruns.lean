import ModelAudit.Proofs.Orchestrator.Publication
import ModelAudit.Proofs.Orchestrator.Undisturbed

namespace ModelAudit

-- Two completions that say the same, whichever runs they are of and whichever tokens they have.
structure Completion.Alike (c c' : Completion) : Prop where
  digest  : c.digest = c'.digest
  records : c.records = c'.records
  tokens  : c.results.map (·.token.isSome) = c'.results.map (·.token.isSome)
  overall : c.overall = c'.overall

theorem ProblemList.remove_remove (l : ProblemList) (origin : Problem.Origin) :
    (l.remove origin).remove origin = l.remove origin := by
  simp [remove, List.filter_filter]

namespace Orchestrator

open Registry (Receipt)

theorem filter_entriesOf (o : Orchestrator) (records : List Record) :
    (o.entriesOf records).filter (·.origin != .sanity) = [] :=
  List.filter_eq_nil_iff.mpr fun p hp => by simp [origin_of_mem_entriesOf hp]

namespace State

variable {o : Orchestrator} {s s' s₀ s₁ s₂ : State} {text : String} {document : Document}
  {c c' : Completion} {before between history : List Happening}

-- The tokens that were issued to the orchestrator in the course of a history and are still good.
def liveTokens (o : Orchestrator) (s : State) (history : List Happening) : List Token :=
  (Registry.receipts {} (s.ledger o history)).filter (fun x => x.user = .publisher ∧
    (s.afterAll o history).shared.registry.Contains x.token) |>.map (·.token)

section Leaves

theorem Leaves.map_token_isSome (hl : s.Leaves o s₁ text document c) :
    c.results.map (·.token.isSome) = (o.recordsFor text document).map (·.hasTrace) := by
  rw [← hl.records, Completion.records, List.map_map]
  exact List.map_congr_left hl.traces

-- What a run has come to does not show which run it was, nor what it has found.
theorem Leaves.alike (hl : s.Leaves o s₁ text document c)
    (hl' : s'.Leaves o s₂ text document c') : c.Alike c' where
  digest  := hl.digest.trans hl'.digest.symm
  records := hl.records.trans hl'.records.symm
  tokens  := hl.map_token_isSome.trans hl'.map_token_isSome.symm
  overall := by rw [hl.overall, hl'.overall, hl.records, hl'.records]

-- A run that finds what such a run has left takes it away and leaves it again.
theorem Leaves.problems_eq (hl : s.Leaves o s₁ text document c)
    (hl' : s'.Leaves o s₂ text document c') (he : s₂.shared.problems = s.shared.problems) :
    s'.shared.problems = s.shared.problems := by
  have hleft : (s.shared.problems.remove .sanity).entries =
      (s₁.shared.problems.remove .sanity).entries := by
    rw [ProblemList.remove, hl.problems, List.filter_append, filter_entriesOf, List.append_nil]
    exact congrArg ProblemList.entries <| s₁.shared.problems.remove_remove .sanity
  have hp : s'.shared.problems.entries = s.shared.problems.entries := by
    rw [hl'.problems, he, hleft, hl.problems, hl'.records, hl.records]
  exact congrArg ProblemList.mk hp

-- When a run has come to its end, the tokens of its completion are live, and no others.
theorem Leaves.liveTokens_eq (h : o.initial = .ok s₀)
    (hl : (s₀.afterAll o history).Leaves o s₁ text document c) :
    s₀.liveTokens o history = c.tokens := by
  have hordered : (s₀.liveTokens o history).Pairwise fun t u => t.number < u.number :=
    Registry.receipts_pairwise _ _ |>.filter _ |>.map _ fun _ _ => id
  have hasc : c.tokens.Pairwise fun t u => t.number < u.number := ascending_of_told h <| mem_told.mpr hl.mem_sent
  have hmem (t : Token) : t ∈ s₀.liveTokens o history ↔ t ∈ c.tokens := by
    constructor
    case mp =>
      intro ht
      have ⟨x, hx, he⟩ := List.mem_map.mp ht
      have ⟨hx, hgood⟩ := List.mem_filter.mp hx
      have ⟨hu, hcontains⟩ := of_decide_eq_true hgood
      have ⟨c', hc', ht⟩ := exists_last_of_contains h hx hu hcontains
      cases hl.last.symm.trans hc'
      exact he ▸ ht
    case mpr =>
      intro ht
      have ⟨x, hx, hu, he⟩ := desk_kept h history |>.issued c (mem_told.mpr hl.mem_sent) t ht
      have ⟨p, hp, hpt⟩ := List.mem_filterMap.mp ht
      have ⟨a, _, hf⟩ := hl.tokens p hp t hpt
      refine List.mem_map.mpr ⟨x, List.mem_filter.mpr ⟨hx, decide_eq_true ⟨hu, ?_⟩⟩, he⟩
      rw [he, Registry.contains_iff_find?, hf]
      rfl
  -- Both lists are in the order in which the tokens were issued.
  have hnodup {ts : List Token} (ho : ts.Pairwise fun t u => t.number < u.number) : ts.Nodup :=
    ho.imp fun {t u} hlt (he : t = u) => absurd hlt <| he ▸ Nat.lt_irrefl t.number
  have hperm := (List.perm_ext_iff_of_nodup (hnodup hordered) (hnodup hasc)).mpr hmem
  exact hperm.eq_of_pairwise (fun _ _ _ _ htu hut => absurd hut <| Nat.lt_asymm htu) hordered hasc

theorem Leaves.length_liveTokens (h : o.initial = .ok s₀)
    (hl : (s₀.afterAll o history).Leaves o s₁ text document c) :
    (s₀.liveTokens o history).length = (o.recordsFor text document).countP (·.hasTrace) := by
  rw [hl.liveTokens_eq h, Completion.tokens, List.length_filterMap_eq_countP, ← hl.records,
    Completion.records, List.countP_map]
  exact List.countP_congr fun p hp => by simp [hl.traces p hp]

end Leaves

-- While no run is active, calm happenings leave it at that, and the problem list as it is.
theorem rests_of_calm (h : o.initial = .ok s₀) (hp : (s₀.afterAll o before).phase = .idle)
    (hc : ∀ h ∈ between, h.Calm) : (s₀.afterAll o (before ++ between)).phase = .idle ∧
      (s₀.afterAll o (before ++ between)).shared.problems = (s₀.afterAll o before).shared.problems := by
  induction between using List.reverseRecOn
  case nil => simp [hp]
  case append_singleton between h' hi =>
    have ⟨hc, hc'⟩ := List.forall_mem_append.mp hc
    have hc' : h'.Calm := hc' h' <| List.mem_singleton_self h'
    have ⟨hp, he⟩ := hi hc
    have hcoh := coherent_of_initial h (before ++ between)
    have htasks : (s₀.afterAll o (before ++ between)).tasks = [] :=
      hcoh.flight.grounded_of_idle hp |>.right
    have hflight := coherent_of_initial h (before ++ between ++ [h']) |>.flight
    rw [← List.append_assoc]
    have hturn := after_turn (o := o) hcoh h'
    rw [← afterAll_concat] at hturn
    generalize s₀.afterAll o (before ++ between ++ [h']) = s' at *
    cases hturn with
    | launch => cases hc'
    | go ht => cases htasks.symm.trans ht
    | close ht => cases htasks.symm.trans ht
    | aside _ ht _ _ _ hproblems =>
      refine ⟨Decidable.byContradiction fun hn => ?_, ?_⟩
      · obtain ⟨_, _, _, ht', _⟩ := hflight.airborne_of_ne_idle hn
        cases htasks.symm.trans <| ht.symm.trans ht'
      · rw [hproblems, visitAll_of_calm hc', he]

-- The run has completed, and no other one since.
structure CompletedLast (s : State) (run : RunId) (c : Completion) : Prop where
  run  : c.run = run
  last : s.last = some c
  told : .completed c ∈ s.channel.sent

theorem Leaves.completedLast (hl : s.Leaves o s₁ text document c) :
    s.CompletedLast ⟨s₁.launches + 1⟩ c :=
  ⟨hl.run, hl.last, hl.mem_sent⟩

-- What the same start comes to, twice in succession and on its own, after something has happened.
structure Reruns (o : Orchestrator) (s₀ : State) (before : List Happening) (text : String)
    (document : Document) : Prop where
  -- A run that is not disturbed comes to its end if its work is taken up often enough.
  completes : ∀ part, (∀ h ∈ part, h.Calm) → (∀ begun, begun <+: part →
    (s₀.afterAll o (before ++ .start text document :: begun)).phase ≠ .idle) →
      ∃ n, (s₀.afterAll o before).Course o text document
        (part ++ List.replicate n (.work ⟨(s₀.afterAll o before).launches + 1⟩ []))
  repeats   : ∀ first between second, (s₀.afterAll o before).Course o text document first →
    (∀ h ∈ between, h.Calm) →
    let once := before ++ .start text document :: first
    (s₀.afterAll o (once ++ between)).Course o text document second →
    let twice := once ++ between ++ .start text document :: second
    (s₀.afterAll o (once ++ between)).phase = .idle ∧
      (s₀.afterAll o twice).shared.problems = (s₀.afterAll o once).shared.problems ∧
      (s₀.liveTokens o twice).length = (s₀.liveTokens o once).length ∧
      ∃ c c', (s₀.afterAll o once).CompletedLast ⟨(s₀.afterAll o before).launches + 1⟩ c ∧
        (s₀.afterAll o twice).CompletedLast ⟨(s₀.afterAll o (once ++ between)).launches + 1⟩ c' ∧
        c.Alike c'
  -- It might as well be the first run of all.
  fresh     : ∀ first alone, (s₀.afterAll o before).Course o text document first →
    s₀.Course o text document alone →
    ∃ c c', (s₀.afterAll o (before ++ .start text document :: first)).CompletedLast
        ⟨(s₀.afterAll o before).launches + 1⟩ c ∧
      (s₀.afterAll o (.start text document :: alone)).CompletedLast ⟨s₀.launches + 1⟩ c' ∧ c.Alike c'

theorem reruns_of_prompt (h : o.initial = .ok s₀) (ho : o.RunsPromptly)
    (hp : (s₀.afterAll o before).phase = .idle) (text : String) (document : Document) :
    s₀.Reruns o before text document where
  completes := fun _ hcalm hlasts => exists_course h ho hp hcalm hlasts
  repeats   := by
    intro first between second hfirst hcalm once hsecond twice
    have ⟨c, hl⟩ := hfirst.leaves h ho hp
    have ⟨hp', hrests⟩ := rests_of_calm h hl.idle hcalm
    have ⟨c', hl'⟩ := hsecond.leaves h ho hp'
    refine ⟨hp', hl.problems_eq hl' hrests, ?_, c, c', hl.completedLast, hl'.completedLast, hl.alike hl'⟩
    rw [hl.length_liveTokens h, hl'.length_liveTokens h]
  fresh     := by
    intro first alone hfirst halone
    have hidle : (s₀.afterAll o []).phase = .idle := by
      obtain ⟨_, rfl⟩ := eq_of_initial h
      rfl
    have ⟨c, hl⟩ := hfirst.leaves h ho hp
    have ⟨c', hl'⟩ := halone.leaves h ho hidle
    exact ⟨c, c', hl.completedLast, hl'.completedLast, hl.alike hl'⟩

end State

theorem reruns_agree {o : Orchestrator} {s₀ : State} {before : List Happening}
    (h : o.initial = .ok s₀) (hr : o.runner = Catalog.builtin.runner)
    (hp : (s₀.afterAll o before).phase = .idle) (text : String) (document : Document) :
    s₀.Reruns o before text document :=
  State.reruns_of_prompt h (runsPromptly_builtin hr) hp text document

-- Before, somebody has reported a problem, a run was asked to stop, and another one has left an entry and
-- a trace.
theorem reruns_agree_after_others :
    let o : Orchestrator := { runner := Catalog.builtin.runner }
    let s₀ : State := { channel := { capacity := 64 } }
    let text := "\x7b\"checks\": [\x7b\"type\": \"deadlock-locations\"\x7d]\x7d"
    let document : Document := { name := "m", templates := [.startingIn "t" "l"] }
    let start : Happening := .start text document
    let work (n : Nat) : List Happening := List.replicate 30 (.work ⟨n⟩ [])
    let stranger : Problem := { origin := .external "other", path := "p", description := "d" }
    let before := .visit (.push stranger) :: start :: start :: work 1 ++ start :: work 2
    o.initial = .ok s₀ ∧ o.runner = Catalog.builtin.runner ∧ (s₀.afterAll o before).phase = .idle ∧
      .cancelled ⟨1⟩ ∈ (s₀.afterAll o before).channel.sent ∧
      (s₀.afterAll o before).shared.problems.entries.length = 2 ∧
      (o.recordsFor text document).map (·.hasTrace) = [true] ∧ s₀.Reruns o before text document := by
  intro o s₀ text document start work stranger before
  have h : o.initial = .ok s₀ := State.initial_of_runner _
  have hp : (s₀.afterAll o before).phase = .idle := by decide +kernel
  exact ⟨h, rfl, hp, by decide +kernel, by decide +kernel, by decide +kernel,
    reruns_agree h rfl hp text document⟩

end Orchestrator

end ModelAudit

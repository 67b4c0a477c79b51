import ModelAudit.Proofs.Orchestrator.Desk
import ModelAudit.Proofs.Orchestrator.Silence

namespace ModelAudit.Orchestrator

open Registry (Use Receipt)

theorem split_append {α : Type} {xs ys before since : List α} {x : α}
    (h : xs ++ ys = before ++ x :: since) :
    (∃ mid, xs = before ++ x :: mid) ∨ ∃ mid, before = xs ++ mid ∧ ys = mid ++ x :: since := by
  rcases List.append_eq_append_iff.mp h with ⟨mid, hb, hy⟩ | ⟨mid, hx, hs⟩
  · exact .inr ⟨mid, hb, hy⟩
  · cases mid
    case nil => exact .inr ⟨[], by simpa using hx.symm, by simpa using hs.symm⟩
    case cons y mid =>
      obtain ⟨rfl, _⟩ := List.cons.inj hs
      exact .inl ⟨mid, hx⟩

namespace Desk

-- The books of the desk. The ledger says what was done to the registry from the beginning on.
structure Kept (ledger : List Use) (d : Desk) : Prop where
  accounts  : d.registry = Registry.afterAll {} ledger
  published : d.published = (d.last.map Completion.tokens).getD []
  last      : d.last = d.told.getLast?
  issued    : ∀ c ∈ d.told, ∀ t ∈ c.tokens,
    ∃ x ∈ Registry.receipts {} ledger, x.user = .publisher ∧ x.token = t
  own       : ∀ x ∈ Registry.receipts {} ledger, x.user = .publisher →
    d.registry.Contains x.token → x.token ∈ d.published
  spared    : ∀ before use since, ledger = before ++ use :: since → use.user = .publisher →
    ∀ x ∈ Registry.receipts {} before, x.user = .other → ¬use.Clears x.token
  stale     : ∀ c ∈ d.told.dropLast, ∀ t ∈ c.tokens, ¬d.registry.Contains t

namespace Kept

variable {d d' : Desk} {ledger uses : List Use} {told : Option Completion} {t : Token} {x : Receipt}

theorem initial : Kept [] ⟨{}, [], none, []⟩ := by
  constructor <;> simp [Registry.afterAll, Registry.receipts]

theorem number_lt (h : d.Kept ledger) (hx : x ∈ Registry.receipts {} ledger) :
    x.token.number < d.registry.next :=
  h.accounts ▸ Registry.number_of_mem_receipts hx |>.right

theorem issued_of_published (h : d.Kept ledger) (ht : t ∈ d.published) :
    ∃ x ∈ Registry.receipts {} ledger, x.user = .publisher ∧ x.token = t := by
  rw [h.published] at ht
  cases hl : d.last
  case none => simp [hl] at ht
  case some c =>
    refine h.issued c (List.mem_of_getLast? <| h.last.symm.trans hl) t ?_
    simpa [hl] using ht

theorem receipts_append (h : d.Kept ledger) (uses : List Use) :
    Registry.receipts {} (ledger ++ uses) = Registry.receipts {} ledger ++ d.registry.receipts uses := by
  rw [Registry.receipts_append, h.accounts]

-- What was stale stays stale, for tokens that were issued.
theorem not_contains_afterAll (h : d.Kept ledger) (hx : x ∈ Registry.receipts {} ledger)
    (hn : ¬d.registry.Contains x.token) (uses : List Use) :
    ¬(d.registry.afterAll uses).Contains x.token := by
  rw [Registry.contains_iff_find?, Option.not_isSome_iff_eq_none] at hn ⊢
  exact Registry.find?_afterAll_eq_none (h.number_lt hx) hn uses

theorem serve (h : d.Kept ledger) (hu : ∀ use ∈ uses, use.user = .other) :
    { d with registry := d.registry.afterAll uses : Desk }.Kept (ledger ++ uses) where
  accounts  := by rw [Registry.afterAll_append, ← h.accounts]
  published := h.published
  last      := h.last
  issued    := by
    intro c hc t ht
    have ⟨x, hx, hp⟩ := h.issued c hc t ht
    exact ⟨x, h.receipts_append uses ▸ List.mem_append_left _ hx, hp⟩
  own       := by
    intro x hx hp hc
    rw [h.receipts_append] at hx
    cases List.mem_append.mp hx
    case inl hx =>
      refine h.own x hx hp <| Decidable.byContradiction fun hn => ?_
      exact h.not_contains_afterAll hx hn uses hc
    case inr hx =>
      have ⟨use, hm, ho⟩ := Registry.user_of_mem_receipts hx
      cases (hu use hm).symm.trans (ho.trans hp)
  spared    := by
    intro before use since he hp x hx ho
    rcases split_append he with ⟨mid, he⟩ | ⟨_, _, hs⟩
    · exact h.spared before use mid he hp x hx ho
    · cases (hu use <| hs ▸ by simp).symm.trans hp
  stale     := by
    intro c hc t ht
    have ⟨x, hx, _, he⟩ := h.issued c (List.dropLast_subset _ hc) t ht
    subst he
    exact h.not_contains_afterAll hx (h.stale c hc x.token ht) uses

section Publish

variable {arriving issuing : List Use} {c : Completion}

-- After the tokens of the completion before were revoked nothing is kept under them.
theorem not_contains_of_published (h : d.Kept ledger) (ht : t ∈ d.published) :
    ¬(d.registry.afterAll (arriving ++ .revoke .publisher d.published :: issuing)).Contains t := by
  have ⟨x, hx, _, he⟩ := h.issued_of_published ht
  rw [Registry.contains_iff_find?, Option.not_isSome_iff_eq_none]
  have hc : (Use.revoke .publisher d.published).Clears t := ht
  exact Registry.find?_afterAll_of_clears (he ▸ h.number_lt hx) (by simp) hc

theorem publish (h : d.Kept ledger) (ha : ∀ use ∈ arriving, use.user = .other)
    (hi : Issues (d.registry.afterAll (arriving ++ [.revoke .publisher d.published])) issuing c.results) :
    Kept (ledger ++ (arriving ++ .revoke .publisher d.published :: issuing))
      { registry  := d.registry.afterAll (arriving ++ .revoke .publisher d.published :: issuing)
        published := c.tokens
        last      := some c
        told      := d.told ++ [c] } := by
  -- What is issued in the step is issued to others before the tokens are revoked, and afterwards to the
  -- publisher for the results.
  have hr : d.registry.receipts (arriving ++ .revoke .publisher d.published :: issuing) =
      d.registry.receipts arriving ++
        (d.registry.afterAll (arriving ++ [.revoke .publisher d.published])).receipts issuing := by
    rw [Registry.receipts_append, Registry.afterAll_append]
    rfl
  have hold {x} (hx : x ∈ Registry.receipts {} ledger) : x ∈ Registry.receipts {}
      (ledger ++ (arriving ++ .revoke .publisher d.published :: issuing)) :=
    h.receipts_append _ ▸ List.mem_append_left _ hx
  constructor
  case accounts => rw [Registry.afterAll_append {} ledger, ← h.accounts]
  case published => rfl
  case last => exact List.getLast?_concat.symm
  case issued =>
    intro c' hc t ht
    cases List.mem_append.mp hc
    case inl hc =>
      have ⟨x, hx, hp⟩ := h.issued c' hc t ht
      exact ⟨x, hold hx, hp⟩
    case inr hc =>
      obtain rfl := List.mem_singleton.mp hc
      rw [Completion.tokens, hi.tokens_eq] at ht
      have ⟨x, hx, he⟩ := List.mem_map.mp ht
      have ⟨hx, hp⟩ := List.mem_filter.mp hx
      refine ⟨x, ?_, of_decide_eq_true hp, he⟩
      rw [h.receipts_append, hr]
      exact List.mem_append_right _ <| List.mem_append_right _ hx
  case own =>
    intro x hx hp hc
    rw [h.receipts_append, hr] at hx
    rcases List.mem_append.mp hx with hx | hx
    · have hn : x.token ∉ d.published := fun ht => h.not_contains_of_published ht hc
      exact absurd hc <| h.not_contains_afterAll hx (mt (h.own x hx hp) hn) _
    · rcases List.mem_append.mp hx with hx | hx
      · have ⟨use, hm, ho⟩ := Registry.user_of_mem_receipts hx
        cases (ha use hm).symm.trans (ho.trans hp)
      · rw [Completion.tokens, hi.tokens_eq]
        exact List.mem_map_of_mem <| List.mem_filter.mpr ⟨hx, decide_eq_true hp⟩
  case spared =>
    intro before use since he hp x hx ho
    rcases split_append he with ⟨mid, he⟩ | ⟨mid, hb, hs⟩
    · exact h.spared before use mid he hp x hx ho
    · rcases split_append hs with ⟨_, hs⟩ | ⟨mid', _, hs⟩
      · cases (ha use <| hs ▸ by simp).symm.trans hp
      · cases mid'
        case nil =>
          obtain ⟨rfl, _⟩ := List.cons.inj hs
          intro ht
          have ⟨y, hy, hu, hy'⟩ := h.issued_of_published ht
          -- A token is issued once, so the one who got it is the publisher.
          have hy : y ∈ Registry.receipts {} before :=
            hb ▸ h.receipts_append mid ▸ List.mem_append_left _ hy
          cases Registry.eq_of_token_eq hx hy hy'.symm
          cases ho.symm.trans hu
        case cons mid' =>
          obtain ⟨_, hs⟩ := List.cons.inj hs
          have hm : use ∈ issuing := hs ▸ by simp
          have ⟨_, hu⟩ := hi.register_of_publisher hm hp
          exact hu ▸ id
  case stale =>
    intro c' hc t ht
    rw [List.dropLast_concat] at hc
    have ⟨x, hx, _, he⟩ := h.issued c' hc t ht
    subst he
    cases hl : d.told.getLast?
    case none => simp [List.getLast?_eq_none_iff.mp hl] at hc
    case some c'' =>
      have ⟨earlier, he⟩ := List.getLast?_eq_some_iff.mp hl
      rw [he] at hc
      cases List.mem_append.mp hc
      case inl hc =>
        refine h.not_contains_afterAll hx (h.stale c' ?_ x.token ht) _
        rwa [he, List.dropLast_concat]
      case inr hc =>
        obtain rfl := List.mem_singleton.mp hc
        refine h.not_contains_of_published ?_
        rw [h.published, h.last, hl]
        exact ht

end Publish

theorem step (h : d.Kept ledger) (hs : d.Step uses told d') : d'.Kept (ledger ++ uses) := by
  cases hs
  case serve hu => exact h.serve hu
  case publish ha hi _ => exact h.publish ha hi

end Kept

end Desk

-- Whether a step is one that starts runs, or work of the given run.
def Happening.Serves (run : RunId) : Happening → Prop
  | start .. => True
  | work r _ => r = run
  | _ => False

-- Whether nobody else uses the registry in a step.
def Happening.Alone : Happening → Prop
  | work _ visits => visits = []
  | visit _ | invoke _ => False
  | _ => True

namespace State

variable {o : Orchestrator} {s₀ : State}

theorem desk_kept (h : o.initial = .ok s₀) (history : List Happening) :
    (s₀.afterAll o history).desk.Kept (s₀.ledger o history) := by
  obtain ⟨capacity, rfl⟩ := eq_of_initial h
  exact desk_induction (s := { channel := { capacity := capacity } })
    (motive := fun ledger d => d.Kept ledger) .initial (fun h hs => h.step hs) history

-- The work of a run that turns out to be cancelled leaves the desk alone, and starting a run does that
-- anyway.
theorem desk_after_of_cancelled (h : o.initial = .ok s₀) {before since : List Happening} {run : RunId}
    {step : Happening} (hs : step.Serves run)
    (hc : .cancelled run ∈ (s₀.afterAll o (before ++ step :: since)).channel.sent) :
    ((s₀.afterAll o before).after o step).desk = (s₀.afterAll o before).desk := by
  cases step
  case start text document => exact desk_start _ text document
  case work run' visits =>
    obtain rfl : run' = run := hs
    rcases work_desk o (s₀.afterAll o before) run' visits with ⟨c, hp, hd⟩ | ⟨_, he⟩
    · -- If it published, that would be known in the end.
      have hm : c ∈ (s₀.afterAll o (before ++ .work run' visits :: since)).desk.told := by
        rw [afterAll_append, afterAll_cons]
        refine told_subset o _ since ?_
        rw [hd.told_eq]
        exact List.mem_append_right _ <| .head _
      have ⟨_, hr⟩ := hp.happening
      obtain ⟨rfl, _⟩ := Happening.work.inj hr
      exact absurd hc <| (Lifecycle.decided h _).exclusive c <| .inl <| mem_told.mp hm
    · exact he
  all_goals cases hs

theorem mem_published_of_clears {s : State} {step : Happening} {use : Use} (ha : step.Alone)
    (hu : use ∈ s.uses o step) {t : Token} (hc : use.Clears t) : t ∈ s.published := by
  cases step
  case work run visits =>
    obtain rfl : visits = [] := ha
    rcases mem_uses_of_alone hu with rfl | ⟨a, rfl⟩
    · exact hc
    · cases hc
  case visit => cases ha
  case invoke => cases ha
  all_goals cases hu

-- Left alone, the orchestrator does not touch what it has not published itself.
theorem find?_after_of_alone (h : o.initial = .ok s₀) (before : List Happening) {step : Happening}
    (ha : step.Alone) {t : Token} (ht : t ∉ (s₀.afterAll o before).published)
    (hc : (s₀.afterAll o before).shared.registry.Contains t) :
    ((s₀.afterAll o before).after o step).shared.registry.find? t =
      (s₀.afterAll o before).shared.registry.find? t := by
  have ⟨_, hd, _⟩ := after_desk o (s₀.afterAll o before) step
  have hr : ((s₀.afterAll o before).after o step).shared.registry =
      (s₀.afterAll o before).shared.registry.afterAll ((s₀.afterAll o before).uses o step) :=
    hd.registry_eq
  have hn : (s₀.afterAll o before).shared.registry.Numbered := by
    have hk : (s₀.afterAll o before).shared.registry = _ := (desk_kept h before).accounts
    rw [hk]
    exact Registry.numbered_empty.afterAll _
  rw [hr]
  exact Registry.find?_afterAll (hn t hc) fun use hu hs => ht <| mem_published_of_clears ha hu hs

-- A token of the publisher that is live belongs to the last completion.
theorem exists_last_of_contains (h : o.initial = .ok s₀) {history : List Happening} {x : Registry.Receipt}
    (hx : x ∈ Registry.receipts {} (s₀.ledger o history)) (hu : x.user = .publisher)
    (hc : (s₀.afterAll o history).shared.registry.Contains x.token) :
    ∃ c, (s₀.afterAll o history).last = some c ∧ x.token ∈ c.tokens := by
  have hk := desk_kept h history
  have ht : x.token ∈ ((s₀.afterAll o history).last.map Completion.tokens).getD [] :=
    hk.published ▸ hk.own x hx hu hc
  cases hl : (s₀.afterAll o history).last
  case none => simp [hl] at ht
  case some c => exact ⟨c, rfl, by simpa [hl] using ht⟩

-- What holds of the tokens when a history has come to its end. The ledger lists what was done to the
-- registry in its course, and by whom.
structure TokensKept (o : Orchestrator) (s₀ : State) (history : List Happening) : Prop where
  accounts  : (s₀.afterAll o history).shared.registry = Registry.afterAll {} (s₀.ledger o history)
  published : (s₀.afterAll o history).published =
    ((s₀.afterAll o history).last.map Completion.tokens).getD []
  own       : ∀ x ∈ Registry.receipts {} (s₀.ledger o history), x.user = .publisher →
    (s₀.afterAll o history).shared.registry.Contains x.token →
      ∃ c, (s₀.afterAll o history).last = some c ∧ x.token ∈ c.tokens
  spared    : ∀ before use since, s₀.ledger o history = before ++ use :: since →
    use.user = .publisher → ∀ x ∈ Registry.receipts {} before, x.user = .other →
      ((Registry.afterAll {} before).after use).find? x.token =
        (Registry.afterAll {} before).find? x.token
  others    : ∀ before step since, history = before ++ step :: since → step.Alone →
    ∀ t ∉ (s₀.afterAll o before).published, (s₀.afterAll o before).shared.registry.Contains t →
      ((s₀.afterAll o before).after o step).shared.registry.find? t =
        (s₀.afterAll o before).shared.registry.find? t
  cancelled : ∀ run, .cancelled run ∈ (s₀.afterAll o history).channel.sent →
    ∀ before step since, history = before ++ step :: since → step.Serves run →
      ((s₀.afterAll o before).after o step).desk = (s₀.afterAll o before).desk
  observed  : (s₀.afterAll o history).last = (s₀.afterAll o history).desk.told.getLast?
  stale     : ∀ c ∈ (s₀.afterAll o history).desk.told.dropLast, ∀ t ∈ c.tokens,
    ¬(s₀.afterAll o history).shared.registry.Contains t

end State

theorem token_lifetime {o : Orchestrator} {s : State} (h : o.initial = .ok s)
    (history : List Happening) : s.TokensKept o history where
  accounts  := (State.desk_kept h history).accounts
  published := (State.desk_kept h history).published
  own       := fun _ hx hu hc => State.exists_last_of_contains h hx hu hc
  spared    := by
    intro before use since he hu x hx ho
    have hn := (State.desk_kept h history).spared before use since he hu x hx ho
    exact Registry.find?_after (Registry.number_of_mem_receipts hx).right hn
  others    := fun before _ _ _ ha _ => State.find?_after_of_alone h before ha
  cancelled := by
    rintro run hc before step since rfl hs
    exact State.desk_after_of_cancelled h hs hc
  observed  := (State.desk_kept h history).last
  stale     := (State.desk_kept h history).stale

-- Somebody registers an action, and of the three runs that follow the second is asked to stop. In the
-- end the token of the stranger is live, and that of the last run.
theorem token_lifetime_across_runs :
    let r : Record := { check := "a", message := "b", satisfied := false, trace := some .done }
    let o : Orchestrator := { runner := Runner.scripted [.record r] }
    let s : State := { channel := { capacity := 64 } }
    let start : Happening := .start "" { name := "m" }
    let work (n : Nat) : List Happening := List.replicate 7 (.work ⟨n⟩ [])
    let history :=
      .visit (.register .done) :: start :: work 1 ++ start :: start :: work 2 ++ start :: work 3
    let ending := s.afterAll o history
    o.initial = .ok s ∧ s.TokensKept o history ∧ .cancelled ⟨2⟩ ∈ ending.channel.sent ∧
      ending.desk.told.map Completion.tokens = [[⟨2⟩], [⟨3⟩]] ∧
        ending.shared.registry.live.map (·.1) = [⟨1⟩, ⟨3⟩] := by
  intro r o s start work history ending
  have h : o.initial = .ok s := State.initial_of_runner _
  exact ⟨h, token_lifetime h history, by decide +kernel, by decide +kernel, by decide +kernel⟩

end ModelAudit.Orchestrator

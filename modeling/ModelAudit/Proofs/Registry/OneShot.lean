import ModelAudit.Proofs.Registry.Journal
import Mathlib.Data.Set.Card

namespace ModelAudit

-- Neither the action panics nor any that it registers.
def Action.Calm : Action → Prop
  | done => True
  | panic _ => False
  | register inner next => inner.Calm ∧ next.Calm
  | display _ next | note _ next | invoke _ _ next | revoke _ next => next.Calm

namespace Registry

-- The token was issued for the action and was not used up since.
def Live (js : List Occurrence) (t : Token) (a : Action) : Prop :=
  ∃ before since, js = before ++ .issued t a :: since ∧ ∀ j ∈ since, ¬j.Clears t

def liveTokens (js : List Occurrence) : Set Token :=
  { t | ∃ a, Live js t a }

section Liveness

variable {js ks : List Occurrence} {j : Occurrence} {t : Token} {a : Action} {r : Registry}

theorem live_concat : Live (js ++ [j]) t a ↔ j = .issued t a ∨ (Live js t a ∧ ¬j.Clears t) := by
  constructor
  case mp =>
    rintro ⟨before, since, he, hn⟩
    rcases List.eq_nil_or_concat since with rfl | ⟨since, k, rfl⟩
    · exact .inl <| List.append_inj' he rfl |>.right |> List.cons.inj |>.left
    · rw [List.concat_eq_append, ← List.cons_append, ← List.append_assoc] at he
      obtain ⟨rfl, hk⟩ := List.append_inj' he rfl
      obtain ⟨rfl, _⟩ := List.cons.inj hk
      exact .inr ⟨⟨before, since, rfl, fun j hj => hn j <| by simp [hj]⟩, hn j <| by simp⟩
  case mpr =>
    rintro (rfl | ⟨⟨before, since, rfl, hn⟩, hj⟩)
    · exact ⟨js, [], rfl, nofun⟩
    · refine ⟨before, since ++ [j], by simp, fun k hk => ?_⟩
      rcases List.mem_append.mp hk with hk | hk
      · exact hn k hk
      · exact List.mem_singleton.mp hk ▸ hj

theorem numbered_replay (js : List Occurrence) : (replay {} js).Numbered :=
  numbered_empty.afterAll _

-- The registry keeps what is live, and nothing else.
theorem find?_replay_iff (h : Bears {} js) : (replay {} js).find? t = some a ↔ Live js t a := by
  induction js using List.reverseRecOn
  case nil =>
    constructor
    case mp => nofun
    case mpr =>
      rintro ⟨_, _, he, _⟩
      simp at he
  case append_singleton js j hi =>
    have ⟨hb, hj⟩ := h.of_append
    rw [live_concat, ← hi hb, replay_append]
    have hn := numbered_replay js
    generalize replay {} js = r at hj hn
    cases hj
    case issued b _ =>
      have hf : r.find? ⟨r.next⟩ = none := find?_eq_none_of_le hn <| Nat.le_refl _
      have hr : (r.replay [.issued (r.register b).1 b]).find? t = _ := r.find?_register b t
      rw [hr]
      by_cases ht : t = ⟨r.next⟩
      · subst ht
        simp [hf, register, Occurrence.Clears]
      · have ht' : t.number ≠ r.next := fun he => ht <| by rw [← he]
        simp [ht', Ne.symm ht, register, Occurrence.Clears]
    case ran u b hf _ =>
      have hr : (r.replay [.ran u b]).find? t = _ := r.find?_clear u t
      rw [hr]
      by_cases ht : t = u <;> simp [ht, Occurrence.Clears, eq_comm]
    case refused u hf _ => simp [replay, Occurrence.uses, afterAll, Occurrence.Clears]
    case revoked ts _ =>
      have hr : (r.replay [.revoked ts (r.revoke ts).1]).find? t = _ := r.find?_revoke ts t
      rw [hr]
      by_cases ht : t ∈ ts <;> simp [ht, Occurrence.Clears]

theorem contains_replay_iff (h : Bears {} js) : (replay {} js).Contains t ↔ t ∈ liveTokens js := by
  refine contains_iff_find?.trans <| Option.isSome_iff_exists.trans ?_
  exact exists_congr fun _ => find?_replay_iff h

-- Every number is given out once, beginning with that of the registry.
theorem numbers_eq (h : Bears r js) : (js.filterMap Occurrence.token?).map (·.number) =
    List.range' r.next (js.filterMap Occurrence.token?).length := by
  induction h
  case nil => rfl
  case issued hi => exact congrArg _ hi
  case revoked r ts _ _ hi => rw [r.next_revoke ts] at hi; exact hi
  all_goals assumption

end Liveness

section Counting

variable {r : Registry} {t : Token} {ts : List Token}

-- No two actions are kept under one token.
def Distinct (r : Registry) : Prop :=
  (r.live.map (·.1)).Nodup

theorem Distinct.clear (h : r.Distinct) (t : Token) : (r.clear t).Distinct :=
  h.sublist <| List.filter_sublist.map _

theorem Distinct.after (h : r.Distinct) (hn : r.Numbered) (use : Use) : (r.after use).Distinct := by
  cases use
  case register user a =>
    have hf : ⟨r.next⟩ ∉ r.live.map (·.1) := fun hm => Nat.lt_irrefl _ <| hn ⟨r.next⟩ hm
    have hl : (r.after (.register user a)).live.map (·.1) = r.live.map (·.1) ++ [⟨r.next⟩] := by
      simp [Registry.after, register]
    rw [Distinct, hl]
    exact h.append (List.nodup_singleton _) <| List.disjoint_singleton.mpr hf
  case take t => exact h.clear t
  case revoke ts =>
    show (r.revoke ts).2.Distinct
    induction ts generalizing r
    case nil => exact h
    case cons t ts hi =>
      exact hi (h.clear t) fun u hu => hn u <| contains_clear_iff.mp hu |>.left

theorem Distinct.afterAll (h : r.Distinct) (hn : r.Numbered) (uses : List Use) :
    (r.afterAll uses).Distinct := by
  induction uses generalizing r
  case nil => exact h
  case cons use uses hi => exact hi (h.after hn use) (hn.after use)

theorem size_eq_ncard (h : r.Distinct) : r.size = { t | r.Contains t }.ncard := by
  have hs : { t | r.Contains t } = ((r.live.map (·.1)).toFinset : Set Token) := by
    ext t
    simp [Contains]
  rw [hs, Set.ncard_coe_finset, List.toFinset_card_of_nodup h, List.length_map, size]

-- A token that is revoked twice is counted once.
theorem revoke_eq_ncard (r : Registry) (ts : List Token) :
    (r.revoke ts).1 = { t | t ∈ ts ∧ r.Contains t }.ncard := by
  induction ts generalizing r
  case nil => simp [revoke]
  case cons t ts hi =>
    have hf : { u | u ∈ ts ∧ (r.clear t).Contains u }.Finite :=
      ts.finite_toSet.subset fun u hu => hu.left
    have hn : t ∉ { u | u ∈ ts ∧ (r.clear t).Contains u } := fun hm => r.not_contains_clear t hm.right
    simp only [revoke, hi]
    split
    case isTrue hc =>
      rw [← Set.ncard_insert_of_notMem hn hf]
      congr 1
      ext u
      by_cases hu : u = t <;> simp [hu, hc, contains_clear_iff]
    case isFalse hc =>
      congr 1
      ext u
      by_cases hu : u = t <;> simp [hu, hc, contains_clear_iff]

theorem contains_register_iff {a : Action} :
    (r.register a).2.Contains t ↔ r.Contains t ∨ t = (r.register a).1 := by
  simp [Contains, register, eq_comm]

theorem contains_of_revoke (h : (r.revoke ts).2.Contains t) : r.Contains t := by
  rw [contains_iff_find?, find?_revoke] at h
  split at h
  · cases h
  · exact contains_iff_find?.mpr h

def Occurrence.runs (t : Token) : Occurrence → Bool
  | ran u _ => u == t
  | _ => false

-- An action that runs was kept from the beginning, or it was registered since, and it is gone afterwards.
theorem countP_runs_le {js : List Occurrence} (h : Bears r js) (t : Token) :
    js.countP (Occurrence.runs t) ≤
      (js.filterMap Occurrence.token?).count t + if r.Contains t then 1 else 0 := by
  induction h
  case nil => exact Nat.zero_le _
  case issued r a js _ hi =>
    refine hi.trans ?_
    by_cases ht : t = (r.register a).1
    · by_cases hc : r.Contains t <;>
        simp [contains_register_iff, Occurrence.token?, ← ht, hc, Nat.add_comm]
    · simp [contains_register_iff, Occurrence.token?, ht, Ne.symm ht]
  case ran r u a js hf _ hi =>
    have hu : r.Contains u := contains_iff_find?.mpr <| by simp [hf]
    rw [List.countP_cons, List.filterMap_cons_none (by rfl)]
    by_cases ht : u = t
    · subst ht
      simpa [Occurrence.runs, hu, not_contains_clear] using hi
    · simpa [Occurrence.runs, ht, contains_clear_iff, Ne.symm ht] using hi
  case refused hi => exact hi
  case revoked r ts js _ hi =>
    refine hi.trans <| Nat.add_le_add_left ?_ _
    by_cases hc : (r.revoke ts).2.Contains t
    · simp [hc, contains_of_revoke hc]
    · simp [hc]

end Counting

section Entries

variable {before since : List Occurrence} {t : Token} {a : Action} {ts : List Token} {n : Nat}

theorem ascending_tokens {js : List Occurrence} (h : Bears {} js) :
    (js.filterMap Occurrence.token?).Pairwise (·.number < ·.number) := by
  refine List.pairwise_map.mp ?_
  rw [numbers_eq h]
  exact List.pairwise_lt_range' 1

theorem size_replay {js : List Occurrence} (h : Bears {} js) :
    (replay {} js).size = (liveTokens js).ncard := by
  have he : Distinct {} := List.nodup_nil
  refine (size_eq_ncard <| he.afterAll numbered_empty _).trans ?_
  exact congrArg _ <| Set.ext fun _ => contains_replay_iff h

theorem runs_once {js : List Occurrence} (h : Bears {} js) (t : Token) :
    js.countP (Occurrence.runs t) ≤ 1 := by
  have hn : (js.filterMap Occurrence.token?).Nodup :=
    (ascending_tokens h).imp fun hl => mt (congrArg Token.number) <| Nat.ne_of_lt hl
  refine (countP_runs_le h t).trans ?_
  simpa [Contains] using List.nodup_iff_count_le_one.mp hn t

theorem live_of_ran (h : Bears {} (before ++ .ran t a :: since)) : Live before t a := by
  have ⟨hb, hr⟩ := h.of_append
  cases hr
  case ran hf _ => exact find?_replay_iff hb |>.mp hf

theorem stale_of_refused (h : Bears {} (before ++ .refused t :: since)) : t ∉ liveTokens before := by
  have ⟨hb, hr⟩ := h.of_append
  cases hr
  case refused hf _ =>
    rintro ⟨a, ha⟩
    rw [find?_replay_iff hb |>.mpr ha] at hf
    cases hf

theorem replay_refused (js : List Occurrence) (t : Token) :
    replay {} (js ++ [.refused t]) = replay {} js :=
  replay_append {} js [.refused t]

theorem count_revoke {js : List Occurrence} (h : Bears {} js) (ts : List Token) :
    ((replay {} js).revoke ts).1 = { t | t ∈ ts ∧ t ∈ liveTokens js }.ncard := by
  simp only [revoke_eq_ncard, contains_replay_iff h]

theorem count_of_revoked (h : Bears {} (before ++ .revoked ts n :: since)) :
    n = { t | t ∈ ts ∧ t ∈ liveTokens before }.ncard := by
  have ⟨hb, hr⟩ := h.of_append
  cases hr
  exact count_revoke hb ts

theorem liveTokens_revoked (js : List Occurrence) (ts : List Token) (n : Nat) :
    liveTokens (js ++ [.revoked ts n]) = liveTokens js \ { t | t ∈ ts } := by
  ext t
  simp [liveTokens, live_concat, Occurrence.Clears]

end Entries

section Answers

variable {r : Registry} {stack : List Action}

theorem answer_run_ne_stale (stack : List Action) (r : Registry) (t : Token) :
    (run stack r).answer ≠ .stale t := by
  fun_induction run stack r
  case case1 | case3 => simp
  all_goals assumption

-- No action that is kept ever panics.
def Calm (r : Registry) : Prop :=
  ∀ m ∈ r.live, m.2.Calm

theorem calm_empty : Calm {} :=
  List.forall_mem_nil _

theorem Calm.register (h : r.Calm) {a : Action} (ha : a.Calm) : (r.register a).2.Calm := by
  intro m hm
  rcases List.mem_append.mp hm with hm | hm
  · exact h m hm
  · exact List.mem_singleton.mp hm ▸ ha

theorem Calm.clear (h : r.Calm) (t : Token) : (r.clear t).Calm :=
  fun m hm => h m <| List.mem_filter.mp hm |>.left

theorem Calm.revoke (h : r.Calm) (ts : List Token) : (r.revoke ts).2.Calm := by
  induction ts generalizing r
  case nil => exact h
  case cons t ts hi => exact hi <| h.clear t

theorem Calm.of_find? (h : r.Calm) {t : Token} {a : Action} (hf : r.find? t = some a) : a.Calm := by
  obtain ⟨m, hm, rfl⟩ := Option.map_eq_some_iff.mp hf
  exact h m <| List.mem_of_find?_eq_some hm

theorem Calm.run (h : r.Calm) (hs : ∀ a ∈ stack, a.Calm) :
    (Registry.run stack r).answer = .done ∧ (Registry.run stack r).registry.Calm := by
  fun_induction Registry.run stack r
  case case1 => exact ⟨rfl, h⟩
  case case2 hi => exact hi h fun a ha => hs a <| .tail _ ha
  case case3 => exact absurd (hs _ <| .head _) id
  case case4 hi => exact hi h <| by simpa only [List.forall_mem_cons, Action.Calm] using hs
  case case5 hi => exact hi h <| by simpa only [List.forall_mem_cons, Action.Calm] using hs
  case case6 hi =>
    obtain ⟨⟨hi', hn⟩, hr⟩ := List.forall_mem_cons.mp hs
    exact hi (h.register hi') <| List.forall_mem_cons.mpr ⟨hn, hr⟩
  case case7 ht _ hi =>
    obtain ⟨hn, hr⟩ := List.forall_mem_cons.mp hs
    refine hi (eq_clear_of_take ht ▸ h.clear _) ?_
    exact List.forall_mem_cons.mpr ⟨h.of_find? (find?_of_take ht), List.forall_mem_cons.mpr ⟨hn, hr⟩⟩
  case case8 hi => exact hi h <| by simpa only [List.forall_mem_cons, Action.Calm] using hs
  case case9 hi => exact hi (h.revoke _) <| by simpa only [List.forall_mem_cons, Action.Calm] using hs

theorem find?_eq_none_iff {t : Token} : r.find? t = none ↔ ¬r.Contains t := by
  rw [contains_iff_find?, Option.not_isSome_iff_eq_none]

theorem take_of_find? {t : Token} {a : Action} (h : r.find? t = some a) :
    r.take t = some (a, r.clear t) := by
  simp [take, h]

theorem attempts_invoke (r : Registry) (t : Token) : (r.invoke t).deeds.filterMap attemptOf? =
    (r.callJournal (.invoke t)).filterMap Occurrence.attempt? := by
  cases hf : r.find? t
  case none => simp [invoke, callJournal, take, hf, attemptOf?, Occurrence.attempt?]
  case some a =>
    simp only [invoke, callJournal, take_of_find? hf]
    exact congrArg _ <| attempts_run [a] (r.clear t)

theorem answer_invoke_iff (h : r.Calm) {t : Token} : (r.invoke t).answer = .done ↔ r.Contains t := by
  cases hf : r.find? t
  case none => simp [invoke_of_stale hf, find?_eq_none_iff.mp hf]
  case some a =>
    have ha := (h.clear t).run (List.forall_mem_singleton.mpr <| h.of_find? hf) |>.left
    simp [invoke_of_find? hf, Outcome.after, ha, contains_iff_find?, hf]

-- Actions may panic here: who invokes a token that is live is never told that it is stale.
theorem answer_invoke_stale_iff {t : Token} : (r.invoke t).answer = .stale t ↔ ¬r.Contains t := by
  cases hf : r.find? t
  case none => simp [invoke_of_stale hf, find?_eq_none_iff.mp hf]
  case some a =>
    have ha := answer_run_ne_stale [a] (r.clear t) t
    simp [invoke_of_find? hf, Outcome.after, ha, contains_iff_find?, hf]

theorem Calm.called (h : r.Calm) {call : Call} (hc : ∀ a, call = .register a → a.Calm) :
    (r.called call).Calm := by
  cases call
  case register a => exact h.register <| hc a rfl
  case revoke ts => exact h.revoke ts
  case invoke t =>
    cases hf : r.find? t
    case none => rw [Registry.called, invoke_of_stale hf]; exact h
    case some a =>
      rw [Registry.called, invoke_of_find? hf]
      exact (h.clear t).run (List.forall_mem_singleton.mpr <| h.of_find? hf) |>.right

theorem Calm.calledAll (h : r.Calm) {calls : List Call} (hc : ∀ a, .register a ∈ calls → a.Calm) :
    (r.calledAll calls).Calm := by
  induction calls generalizing r
  case nil => exact h
  case cons call calls hi =>
    exact hi (h.called fun a ha => hc a <| ha ▸ .head _) fun a ha => hc a <| .tail _ ha

end Answers

section Law

variable (calls : List Call)

-- What happens to the registry, and what it answers to the next call. An occurrence can be part of an
-- action that runs, where others come before it in the same call.
structure OneShot : Prop where
  -- Tokens are numbered from 1, so they fit into a word unless there are 2 ^ 64 - 1 registrations.
  numbers   : ((journal {} calls).filterMap Occurrence.token?).map (·.number) =
    List.range' 1 ((journal {} calls).filterMap Occurrence.token?).length
  ascending : ((journal {} calls).filterMap Occurrence.token?).Pairwise (·.number < ·.number)
  ran       : ∀ before t a since, journal {} calls = before ++ .ran t a :: since → Live before t a
  once      : ∀ t, (journal {} calls).countP (Occurrence.runs t) ≤ 1
  refused   : ∀ before t since, journal {} calls = before ++ .refused t :: since →
    t ∉ liveTokens before ∧ replay {} (before ++ [.refused t]) = replay {} before
  revoked   : ∀ before ts n since, journal {} calls = before ++ .revoked ts n :: since →
    n = { t | t ∈ ts ∧ t ∈ liveTokens before }.ncard ∧
      liveTokens (before ++ [.revoked ts n]) = liveTokens before \ { t | t ∈ ts }
  contents  : ∀ before since, journal {} calls = before ++ since →
    (∀ t a, (replay {} before).find? t = some a ↔ Live before t a) ∧
      (replay {} before).size = (liveTokens before).ncard
  registry  : replay {} (journal {} calls) = calledAll {} calls
  next      : ∀ call, journal {} (calls ++ [call]) =
    journal {} calls ++ (calledAll {} calls).callJournal call
  runs      : ∀ t a, Live (journal {} calls) t a → (calledAll {} calls).invoke t =
    (run [a] <| (calledAll {} calls).clear t).after [.invoked t]
  -- The occurrences are those of the action that runs.
  course    : ∀ t a, Live (journal {} calls) t a → ∀ before since,
    (calledAll {} calls).callJournal (.invoke t) = .ran t a :: before ++ since →
      ∃ rest deeds, Continues [a] ((calledAll {} calls).clear t) before since rest deeds
  attempts  : ∀ t, ((calledAll {} calls).invoke t).deeds.filterMap attemptOf? =
    ((calledAll {} calls).callJournal (.invoke t)).filterMap Occurrence.attempt?
  stale     : ∀ t, t ∉ liveTokens (journal {} calls) →
    (calledAll {} calls).invoke t = ⟨[.foundStale t], calledAll {} calls, .stale t⟩
  answers   : ∀ t, ((calledAll {} calls).invoke t).answer = .stale t ↔ t ∉ liveTokens (journal {} calls)
  succeeds  : (∀ a, .register a ∈ calls → a.Calm) → ∀ t,
    ((calledAll {} calls).invoke t).answer = .done ↔ t ∈ liveTokens (journal {} calls)
  revokes   : ∀ ts, ((calledAll {} calls).revoke ts).1 =
    { t | t ∈ ts ∧ t ∈ liveTokens (journal {} calls) }.ncard
  size      : (calledAll {} calls).size = (liveTokens <| journal {} calls).ncard

theorem one_shot : OneShot calls := by
  have hj := journal_bears {} calls
  have hr := replay_journal {} calls
  have split {before since : List Occurrence} (h : journal {} calls = before ++ since) :
      Bears {} (before ++ since) := h ▸ hj
  have hf {t : Token} {a : Action} : Live (journal {} calls) t a ↔ (calledAll {} calls).find? t = some a :=
    hr ▸ (find?_replay_iff hj).symm
  have hl {t : Token} : t ∈ liveTokens (journal {} calls) ↔ (calledAll {} calls).Contains t :=
    hr ▸ (contains_replay_iff hj).symm
  exact {
    numbers   := numbers_eq hj
    ascending := ascending_tokens hj
    ran       := fun _ _ _ _ h => live_of_ran <| split h
    once      := runs_once hj
    refused   := fun before t _ h => ⟨stale_of_refused <| split h, replay_refused before t⟩
    revoked   := fun before ts n _ h => ⟨count_of_revoked <| split h, liveTokens_revoked before ts n⟩
    contents  := fun _ _ h =>
      have hb := (split h).of_append.left
      ⟨fun _ _ => find?_replay_iff hb, size_replay hb⟩
    registry  := hr
    next      := fun call => by rw [journal_append]; simp [journal]
    runs      := fun _ _ h => invoke_of_find? <| hf.mp h
    course    := fun t a h before since hc => exists_continues <| by
      have ht := take_of_find? <| hf.mp h
      simpa [callJournal, ht] using hc
    attempts  := attempts_invoke _
    stale     := fun t h => invoke_of_stale <| find?_eq_none_iff.mpr <| mt hl.mpr h
    answers   := fun _ => answer_invoke_stale_iff.trans <| not_congr hl.symm
    succeeds  := fun h t => (answer_invoke_iff <| calm_empty.calledAll h).trans hl.symm
    revokes   := hr ▸ count_revoke hj
    size      := hr ▸ size_replay hj }

-- An action that invokes its own token, and revokes it along with another one, finds itself stale.
example :
    let a := Action.invoke "own" ⟨1⟩ <| .revoke [⟨2⟩, ⟨1⟩, ⟨2⟩] .done
    journal {} [.register a, .register .done, .invoke ⟨1⟩] = [.issued ⟨1⟩ a, .issued ⟨2⟩ .done, .ran ⟨1⟩ a,
      .refused ⟨1⟩, .revoked [⟨2⟩, ⟨1⟩, ⟨2⟩] 1] := by
  decide +kernel

end Law

end Registry

end ModelAudit

import ModelAudit.Registry.Invoke

namespace ModelAudit.Registry

-- The one who publishes what was found, or anybody else.
inductive User where
  | publisher
  | other
deriving DecidableEq

-- A change of the registry. Only others invoke tokens, and taking the action out is what that changes.
inductive Use where
  | register (user : User) (a : Action)
  | take (t : Token)
  | revoke (user : User) (ts : List Token)

-- What is known of a token from the moment at which it was issued.
structure Receipt where
  user   : User
  token  : Token
  action : Action

namespace Use

def user : Use → User
  | register user _ => user
  | take _ => .other
  | revoke user _ => user

-- Nothing is kept under the token after the use.
def Clears (t : Token) : Use → Prop
  | register .. => False
  | take u => u = t
  | revoke _ ts => t ∈ ts

end Use

def after (r : Registry) : Use → Registry
  | .register _ a => (r.register a).2
  | .take t => r.clear t
  | .revoke _ ts => (r.revoke ts).2

def afterAll (r : Registry) (uses : List Use) : Registry :=
  uses.foldl after r

def receipt? (r : Registry) : Use → Option Receipt
  | .register user a => some ⟨user, (r.register a).1, a⟩
  | _ => none

-- What was issued in the course of the uses, in order.
def receipts (r : Registry) : List Use → List Receipt
  | [] => []
  | use :: uses => (r.receipt? use).toList ++ (r.after use).receipts uses

variable {r : Registry} {use : Use} {uses more : List Use} {t : Token} {x : Receipt} {a : Action}
  {stack : List Action} {r' : Registry}

theorem afterAll_append (r : Registry) (uses more : List Use) :
    r.afterAll (uses ++ more) = (r.afterAll uses).afterAll more :=
  List.foldl_append

theorem receipts_append (r : Registry) (uses more : List Use) :
    r.receipts (uses ++ more) = r.receipts uses ++ (r.afterAll uses).receipts more := by
  induction uses generalizing r
  case nil => rfl
  case cons use uses hi => simp [receipts, hi, afterAll]

-- Each receipt is made out to the one who registered the action.
theorem user_of_mem_receipts (h : x ∈ r.receipts uses) : ∃ use ∈ uses, use.user = x.user := by
  induction uses generalizing r
  case nil => cases h
  case cons use uses hi =>
    cases List.mem_append.mp h
    case inl h =>
      refine ⟨use, .head uses, ?_⟩
      cases use <;> cases Option.mem_toList.mp h
      rfl
    case inr h =>
      have ⟨u, hm, hu⟩ := hi h
      exact ⟨u, .tail use hm, hu⟩

section Numbers

theorem next_revoke (r : Registry) (ts : List Token) : (r.revoke ts).2.next = r.next := by
  induction ts generalizing r
  case nil => rfl
  case cons t ts hi => exact hi (r.clear t)

theorem next_le_after (r : Registry) (use : Use) : r.next ≤ (r.after use).next := by
  cases use
  case register => exact Nat.le_succ r.next
  case take => exact Nat.le_refl r.next
  case revoke => exact Nat.le_of_eq (r.next_revoke _).symm

theorem next_le_afterAll (r : Registry) (uses : List Use) : r.next ≤ (r.afterAll uses).next := by
  induction uses generalizing r
  case nil => exact Nat.le_refl r.next
  case cons use uses hi => exact Nat.le_trans (r.next_le_after use) <| hi (r.after use)

-- A token is numbered between what was issued before and what is issued afterwards.
theorem number_of_receipt? (h : r.receipt? use = some x) :
    x.token.number = r.next ∧ x.token.number < (r.after use).next := by
  cases use <;> cases h
  exact ⟨rfl, Nat.lt_succ_self r.next⟩

theorem number_of_mem_receipts (h : x ∈ r.receipts uses) :
    r.next ≤ x.token.number ∧ x.token.number < (r.afterAll uses).next := by
  induction uses generalizing r
  case nil => cases h
  case cons use uses hi =>
    cases List.mem_append.mp h
    case inl h =>
      have ⟨he, hl⟩ := number_of_receipt? <| Option.mem_toList.mp h
      exact ⟨Nat.le_of_eq he.symm, Nat.lt_of_lt_of_le hl <| (r.after use).next_le_afterAll uses⟩
    case inr h =>
      have ⟨hl, hu⟩ := hi h
      exact ⟨Nat.le_trans (r.next_le_after use) hl, hu⟩

theorem receipts_pairwise (r : Registry) (uses : List Use) :
    (r.receipts uses).Pairwise fun x y => x.token.number < y.token.number := by
  induction uses generalizing r
  case nil => exact .nil
  case cons use uses hi =>
    refine List.pairwise_append.mpr ⟨?_, hi (r.after use), fun x hx y hy => ?_⟩
    · cases r.receipt? use <;> simp
    · have ⟨_, hl⟩ := number_of_receipt? <| Option.mem_toList.mp hx
      exact Nat.lt_of_lt_of_le hl <| number_of_mem_receipts hy |>.left

-- A token is issued once.
theorem eq_of_token_eq {y : Receipt} (hx : x ∈ r.receipts uses) (hy : y ∈ r.receipts uses)
    (h : x.token = y.token) : x = y := by
  have hp := r.receipts_pairwise uses
  generalize r.receipts uses = xs at hp hx hy
  induction hp
  case nil => cases hx
  case cons z zs hz _ hi =>
    rcases List.mem_cons.mp hx with rfl | hx' <;> rcases List.mem_cons.mp hy with rfl | hy'
    · rfl
    · exact absurd (hz y hy') <| h ▸ Nat.lt_irrefl _
    · exact absurd (hz x hx') <| h ▸ Nat.lt_irrefl _
    · exact hi hx' hy'

end Numbers

section Contents

-- Nothing is kept under a token that was not issued yet.
def Numbered (r : Registry) : Prop :=
  ∀ t, r.Contains t → t.number < r.next

theorem find?_clear (r : Registry) (t u : Token) :
    (r.clear t).find? u = if u = t then none else r.find? u := by
  simp only [find?, clear, List.find?_filter]
  split
  case isTrue h => subst h; simp [List.find?_eq_none]
  case isFalse h =>
    congr 2
    funext m
    by_cases hm : m.1 = u <;> simp [hm, h]

theorem find?_revoke (r : Registry) (ts : List Token) (u : Token) :
    (r.revoke ts).2.find? u = if u ∈ ts then none else r.find? u := by
  induction ts generalizing r
  case nil => simp [revoke]
  case cons t ts hi =>
    refine (hi (r.clear t)).trans ?_
    rw [find?_clear]
    by_cases ht : u = t <;> by_cases hu : u ∈ ts <;> simp [ht, hu]

theorem find?_register (r : Registry) (a : Action) (u : Token) :
    (r.register a).2.find? u = (r.find? u).or (if u.number = r.next then some a else none) := by
  simp only [find?, register, List.find?_append]
  cases r.live.find? (·.1 == u)
  case some => rfl
  case none =>
    obtain ⟨n⟩ := u
    by_cases h : n = r.next
    · simp [h]
    · have hn : r.next ≠ n := fun he => h he.symm
      simp [h, hn]

theorem find?_eq_none_of_le (h : r.Numbered) (ht : r.next ≤ t.number) : r.find? t = none := by
  refine Option.not_isSome_iff_eq_none.mp fun hs => ?_
  exact absurd (h t <| contains_iff_find?.mpr hs) <| Nat.not_lt.mpr ht

-- What a use leaves under a token that was issued before.
theorem find?_after (ht : t.number < r.next) (hn : ¬use.Clears t) :
    (r.after use).find? t = r.find? t := by
  cases use
  case register a =>
    refine (r.find?_register a t).trans ?_
    rw [if_neg <| Nat.ne_of_lt ht, Option.or_none]
  case take u => exact (r.find?_clear u t).trans <| if_neg <| Ne.symm hn
  case revoke ts => exact (r.find?_revoke ts t).trans <| if_neg hn

theorem find?_after_of_clears (h : use.Clears t) : (r.after use).find? t = none := by
  cases use
  case register => cases h
  case take u => exact (r.find?_clear u t).trans <| if_pos h.symm
  case revoke ts => exact (r.find?_revoke ts t).trans <| if_pos h

theorem Numbered.after (h : r.Numbered) (use : Use) : (r.after use).Numbered := by
  intro t ht
  refine Nat.lt_of_not_le fun hn => ?_
  have hl : r.next ≤ t.number := Nat.le_trans (r.next_le_after use) hn
  have hf := find?_eq_none_of_le h hl
  have hs := contains_iff_find?.mp ht
  cases use
  case register a =>
    have he : t.number ≠ r.next := Nat.ne_of_gt hn
    rw [Registry.after, find?_register, hf, if_neg he] at hs
    cases hs
  case take u =>
    rw [Registry.after, find?_clear, hf] at hs
    split at hs <;> cases hs
  case revoke ts =>
    rw [Registry.after, find?_revoke, hf] at hs
    split at hs <;> cases hs

theorem Numbered.afterAll (h : r.Numbered) (uses : List Use) : (r.afterAll uses).Numbered := by
  induction uses generalizing r
  case nil => exact h
  case cons use uses hi => exact hi <| h.after use

theorem find?_afterAll (ht : t.number < r.next) (hn : ∀ use ∈ uses, ¬use.Clears t) :
    (r.afterAll uses).find? t = r.find? t := by
  induction uses generalizing r
  case nil => rfl
  case cons use uses hi =>
    refine (hi (Nat.lt_of_lt_of_le ht <| r.next_le_after use) fun u hu => hn u <| .tail use hu).trans ?_
    exact find?_after ht <| hn use <| .head uses

-- A token that is stale stays stale.
theorem find?_afterAll_eq_none (ht : t.number < r.next) (h : r.find? t = none) (uses : List Use) :
    (r.afterAll uses).find? t = none := by
  induction uses generalizing r
  case nil => exact h
  case cons use uses hi =>
    refine hi (Nat.lt_of_lt_of_le ht <| r.next_le_after use) ?_
    by_cases hc : use.Clears t
    case pos => exact find?_after_of_clears hc
    case neg => exact (find?_after ht hc).trans h

-- Whoever clears a token makes it stale for good.
theorem find?_afterAll_of_clears (ht : t.number < r.next) (hu : use ∈ uses) (h : use.Clears t) :
    (r.afterAll uses).find? t = none := by
  have ⟨before, since, he⟩ := List.append_of_mem hu
  subst he
  have hl := Nat.lt_of_lt_of_le ht <| r.next_le_afterAll before
  have hn := Nat.lt_of_lt_of_le hl <| (r.afterAll before).next_le_after use
  rw [afterAll_append]
  exact find?_afterAll_eq_none hn (find?_after_of_clears h) since

-- An action is kept under its token as long as nobody clears that.
theorem find?_of_register (h : r.Numbered) (user : User) (a : Action)
    (hn : ∀ use ∈ uses, ¬use.Clears (r.register a).1) :
    (r.afterAll (.register user a :: uses)).find? (r.register a).1 = some a := by
  have hl : (r.register a).1.number < (r.after (.register user a)).next := Nat.lt_succ_self r.next
  refine (find?_afterAll hl hn).trans <| (r.find?_register a _).trans ?_
  rw [find?_eq_none_of_le h (Nat.le_refl r.next), Option.none_or]
  exact if_pos rfl

end Contents

section Invoking

theorem invoke_of_find? (h : r.find? t = some a) :
    r.invoke t = (run [a] (r.clear t)).after [.invoked t] := by
  simp [invoke, take, h]

theorem invoke_of_stale (h : r.find? t = none) : r.invoke t = ⟨[.foundStale t], r, .stale t⟩ := by
  simp [invoke, take, h]

-- A token that was issued for an action. It was new, and who invokes it first runs the action, unless
-- it was revoked before; whoever invokes it afterwards finds it stale.
structure Grant (ledger : List Use) (user : User) (a : Action) (t : Token) (earlier since : List Use) :
    Prop where
  entry : ledger = earlier ++ .register user a :: since
  token : t = ((afterAll {} earlier).register a).1
  new   : ∀ x ∈ receipts {} earlier, x.token.number < t.number
  first : (∀ use ∈ since, ¬use.Clears t) → (afterAll {} ledger).invoke t =
    (run [a] <| (afterAll {} ledger).clear t).after [.invoked t]
  later : (∃ use ∈ since, use.Clears t) → (afterAll {} ledger).invoke t =
    ⟨[.foundStale t], afterAll {} ledger, .stale t⟩

theorem numbered_empty : Numbered {} := by
  simp [Numbered, Contains]

theorem grant (user : User) (a : Action) (earlier since : List Use) :
    Grant (earlier ++ .register user a :: since) user a ((afterAll {} earlier).register a).1 earlier
      since where
  entry := rfl
  token := rfl
  new   := fun x hx => number_of_mem_receipts hx |>.right
  first := by
    intro hn
    rw [afterAll_append]
    exact invoke_of_find? <| find?_of_register (numbered_empty.afterAll earlier) user a hn
  later := by
    rintro ⟨use, hu, hc⟩
    rw [afterAll_append]
    let r := (afterAll {} earlier).after (.register user a)
    have hl : ((afterAll {} earlier).register a).1.number < r.next := Nat.lt_succ_self _
    exact invoke_of_stale <| find?_afterAll_of_clears (r := r) hl hu hc

-- How actions change the registry while they run.
def runUses (stack : List Action) (r : Registry) : List Use :=
  match stack with
  | [] => []
  | .done :: rest => runUses rest r
  | .panic _ :: _ => []
  | .display _ next :: rest => runUses (next :: rest) r
  | .note _ next :: rest => runUses (next :: rest) r
  | .register inner next :: rest =>
    have := r.weight_register inner
    .register .other inner :: runUses (next :: rest) (r.register inner).2
  | .invoke name token next :: rest =>
    match h : r.take token with
    | some (a, r') =>
      have := weight_take h
      .take token :: runUses (a :: .note (name ++ ": ok") next :: rest) r'
    | none => runUses (next :: rest) r
  | .revoke tokens next :: rest =>
    have := r.weight_revoke_le tokens
    .revoke .other tokens :: runUses (next :: rest) (r.revoke tokens).2
termination_by stackSize stack + r.weight
decreasing_by all_goals simp_all [stackSize, Action.totalSize, Action.size]; try omega

def invokeUses (r : Registry) (t : Token) : List Use :=
  match r.take t with
  | some (a, r') => .take t :: runUses [a] r'
  | none => []

theorem eq_clear_of_take (h : r.take t = some (a, r')) : r' = r.clear t := by
  simp only [take, Option.map_eq_some_iff, Prod.mk.injEq] at h
  obtain ⟨_, _, _, he⟩ := h
  exact he.symm

theorem runUses_invoke {name : String} {next : Action} {rest : List Action} (h : r.take t = some (a, r')) :
    runUses (.invoke name t next :: rest) r =
      .take t :: runUses (a :: .note (name ++ ": ok") next :: rest) r' := by
  rw [runUses]
  split <;> simp_all

theorem runUses_invoke_stale {name : String} {next : Action} {rest : List Action} (h : r.take t = none) :
    runUses (.invoke name t next :: rest) r = runUses (next :: rest) r := by
  rw [runUses]
  split <;> simp_all

theorem registry_run (stack : List Action) (r : Registry) :
    (run stack r).registry = r.afterAll (runUses stack r) := by
  fun_induction run stack r
  case case1 => simp [runUses, afterAll]
  case case3 => simp [runUses, afterAll]
  case case7 h _ hi =>
    rw [runUses_invoke h]
    exact eq_clear_of_take h ▸ hi
  case case8 h hi =>
    rw [runUses_invoke_stale h]
    exact hi
  all_goals rw [runUses]; assumption

theorem registry_invoke (r : Registry) (t : Token) :
    (r.invoke t).registry = r.afterAll (r.invokeUses t) := by
  cases h : r.take t
  case none => simp [invoke, invokeUses, h, afterAll]
  case some p =>
    obtain ⟨a, r'⟩ := p
    simp only [invoke, invokeUses, h]
    exact eq_clear_of_take h ▸ registry_run [a] r'

-- Actions run on behalf of whoever invoked them.
theorem user_of_mem_runUses (h : use ∈ runUses stack r) : use.user = .other := by
  have cons {u : Use} {us : List Use} (hu : u.user = .other) (hi : use ∈ us → use.user = .other)
      (h : use ∈ u :: us) : use.user = .other := by
    rcases List.mem_cons.mp h with rfl | h
    · exact hu
    · exact hi h
  fun_induction runUses stack r
  case case1 => cases h
  case case3 => cases h
  case case6 hi => exact cons rfl hi h
  case case7 hi => exact cons rfl hi h
  case case9 hi => exact cons rfl hi h
  all_goals exact ‹_ → _› h

theorem user_of_mem_invokeUses (h : use ∈ r.invokeUses t) : use.user = .other := by
  unfold invokeUses at h
  split at h
  case h_1 =>
    rcases List.mem_cons.mp h with rfl | h
    · rfl
    · exact user_of_mem_runUses h
  case h_2 => cases h

end Invoking

end ModelAudit.Registry

import ModelAudit.Proofs.Registry.Ledger

namespace ModelAudit.Registry

inductive Occurrence where
  | issued (t : Token) (a : Action)
  -- Somebody invoked the token, and the action that was kept under it began to run.
  | ran (t : Token) (a : Action)
  -- Somebody invoked the token and found it stale.
  | refused (t : Token)
  -- Somebody revoked the tokens and was told how many of them were in use.
  | revoked (ts : List Token) (n : Nat)
deriving DecidableEq

namespace Occurrence

def uses : Occurrence → List Use
  | issued _ a => [.register .other a]
  | ran t _ => [.take t]
  | refused _ => []
  | revoked ts _ => [.revoke .other ts]

-- The token was used up.
def Clears (t : Token) : Occurrence → Prop
  | ran u _ => u = t
  | revoked ts _ => t ∈ ts
  | issued .. | refused _ => False

def token? : Occurrence → Option Token
  | issued t _ => some t
  | _ => none

-- The token that was invoked, and whether there was an action under it.
def attempt? : Occurrence → Option (Token × Bool)
  | ran t _ => some (t, true)
  | refused t => some (t, false)
  | _ => none

end Occurrence

-- The same for a deed, which is all that others see of an action that runs.
def attemptOf? : Deed → Option (Token × Bool)
  | .invoked t => some (t, true)
  | .foundStale t => some (t, false)
  | _ => none

-- The registry as it is when the occurrences are over.
def replay (r : Registry) (js : List Occurrence) : Registry :=
  r.afterAll (js.flatMap Occurrence.uses)

theorem replay_append (r : Registry) (js ks : List Occurrence) :
    r.replay (js ++ ks) = (r.replay js).replay ks := by
  rw [replay, List.flatMap_append, afterAll_append]
  rfl

inductive Bears : Registry → List Occurrence → Prop
  | nil {r} : Bears r []
  | issued {r a js} (h : Bears (r.register a).2 js) : Bears r (.issued (r.register a).1 a :: js)
  | ran {r t a js} (hf : r.find? t = some a) (h : Bears (r.clear t) js) : Bears r (.ran t a :: js)
  | refused {r t js} (hf : r.find? t = none) (h : Bears r js) : Bears r (.refused t :: js)
  | revoked {r ts js} (h : Bears (r.revoke ts).2 js) : Bears r (.revoked ts (r.revoke ts).1 :: js)

namespace Bears

variable {r : Registry} {js ks : List Occurrence}

theorem append (h : Bears r js) (hk : Bears (r.replay js) ks) : Bears r (js ++ ks) := by
  induction h
  case nil => exact hk
  case issued hi => exact .issued <| hi hk
  case ran hf _ hi => exact .ran hf <| hi hk
  case refused hf _ hi => exact .refused hf <| hi hk
  case revoked hi => exact .revoked <| hi hk

theorem of_append (h : Bears r (js ++ ks)) : Bears r js ∧ Bears (r.replay js) ks := by
  induction js generalizing r
  case nil => exact ⟨.nil, h⟩
  case cons j js hi =>
    cases h
    case issued h => exact (hi h).imp_left .issued
    case ran hf h => exact (hi h).imp_left <| .ran hf
    case refused hf h => exact (hi h).imp_left <| .refused hf
    case revoked h => exact (hi h).imp_left .revoked

end Bears

section Running

variable {r r' : Registry} {stack rest : List Action} {t : Token} {a next : Action} {name : String}

-- What actions do with the registry while they run, and what comes of it.
def runJournal (stack : List Action) (r : Registry) : List Occurrence :=
  match stack with
  | [] => []
  | .done :: rest => runJournal rest r
  | .panic _ :: _ => []
  | .display _ next :: rest => runJournal (next :: rest) r
  | .note _ next :: rest => runJournal (next :: rest) r
  | .register inner next :: rest =>
    have := r.weight_register inner
    .issued (r.register inner).1 inner :: runJournal (next :: rest) (r.register inner).2
  | .invoke name token next :: rest =>
    match h : r.take token with
    | some (a, r') =>
      have := weight_take h
      .ran token a :: runJournal (a :: .note (name ++ ": ok") next :: rest) r'
    | none => .refused token :: runJournal (next :: rest) r
  | .revoke tokens next :: rest =>
    have := r.weight_revoke_le tokens
    .revoked tokens (r.revoke tokens).1 :: runJournal (next :: rest) (r.revoke tokens).2
termination_by stackSize stack + r.weight
decreasing_by all_goals simp_all [stackSize, Action.totalSize, Action.size]; try omega

theorem find?_of_take (h : r.take t = some (a, r')) : r.find? t = some a := by
  simp only [take, Option.map_eq_some_iff, Prod.mk.injEq] at h
  obtain ⟨_, hf, rfl, _⟩ := h
  exact hf

theorem find?_of_take_eq_none (h : r.take t = none) : r.find? t = none :=
  Option.map_eq_none_iff.mp h

theorem runJournal_bears (stack : List Action) (r : Registry) : Bears r (runJournal stack r) := by
  fun_induction runJournal stack r
  case case1 => exact .nil
  case case3 => exact .nil
  case case6 hi => exact .issued hi
  case case7 h _ hi => exact .ran (find?_of_take h) <| eq_clear_of_take h ▸ hi
  case case8 h hi => exact .refused (find?_of_take_eq_none h) hi
  case case9 hi => exact .revoked hi
  all_goals assumption

theorem uses_runJournal (stack : List Action) (r : Registry) :
    (runJournal stack r).flatMap Occurrence.uses = runUses stack r := by
  fun_induction runJournal stack r
  case case1 => rw [runUses]; rfl
  case case3 => rw [runUses]; rfl
  case case6 hi => rw [runUses, List.flatMap_cons, hi]; rfl
  case case7 h _ hi => rw [runUses_invoke h, List.flatMap_cons, hi]; rfl
  case case8 h hi => rw [runUses_invoke_stale h, List.flatMap_cons, hi]; rfl
  case case9 hi => rw [runUses, List.flatMap_cons, hi]; rfl
  all_goals rw [runUses]; assumption

theorem run_invoke (h : r.take t = some (a, r')) : run (.invoke name t next :: rest) r =
    (run (a :: .note (name ++ ": ok") next :: rest) r').after [.invoked t] := by
  rw [run]
  split <;> simp_all

theorem run_invoke_stale (h : r.take t = none) : run (.invoke name t next :: rest) r =
    (run (next :: rest) r).after
      [.foundStale t, .noted (name ++ ": " ++ (AuditError.staleToken t).message)] := by
  rw [run]
  split <;> simp_all

theorem attempts_run (stack : List Action) (r : Registry) :
    (run stack r).deeds.filterMap attemptOf? = (runJournal stack r).filterMap Occurrence.attempt? := by
  fun_induction runJournal stack r
  case case1 => rw [run]; rfl
  case case3 => rw [run]; rfl
  case case7 h _ hi => rw [run_invoke h]; exact congrArg _ hi
  case case8 h hi => rw [run_invoke_stale h]; exact congrArg _ hi
  all_goals rw [run]; assumption

-- What is still to come at a moment of a run is a run, too. It begins with the registry that the journal
-- up to this moment makes of the one in the beginning.
structure Continues (stack : List Action) (r : Registry) (before since : List Occurrence)
    (rest : List Action) (deeds : List Deed) : Prop where
  run      : run stack r = (run rest (r.replay before)).after deeds
  journal  : runJournal rest (r.replay before) = since
  attempts : deeds.filterMap attemptOf? = before.filterMap Occurrence.attempt?

namespace Continues

variable {stack' rest rest' : List Action} {before since more ending : List Occurrence}
  {deeds deeds' done : List Deed}

-- Some things to do do not concern the registry.
theorem aside (h : Continues stack' r before since rest deeds)
    (hr : Registry.run stack r = (Registry.run stack' r).after done)
    (hd : done.filterMap attemptOf? = []) : Continues stack r before since rest (done ++ deeds) where
  run      := by rw [hr, h.run]; simp [Outcome.after]
  journal  := h.journal
  attempts := by rw [List.filterMap_append, hd, h.attempts]; rfl

theorem trans (h : Continues stack r before since rest deeds)
    (h' : Continues rest (r.replay before) more ending rest' deeds') :
    Continues stack r (before ++ more) ending rest' (deeds ++ deeds') where
  run      := by rw [h.run, h'.run, replay_append]; simp [Outcome.after]
  journal  := r.replay_append before more ▸ h'.journal
  attempts := by rw [List.filterMap_append, h.attempts, h'.attempts, List.filterMap_append]

end Continues

theorem exists_next {j : Occurrence} {js : List Occurrence} (h : runJournal stack r = j :: js) :
    ∃ rest deeds, Continues stack r [j] js rest deeds := by
  fun_induction runJournal stack r
  case case1 => cases h
  case case2 hi =>
    obtain ⟨_, _, hc⟩ := hi h
    exact ⟨_, [] ++ _, hc.aside (by rw [run]; rfl) rfl⟩
  case case3 => cases h
  case case4 hi =>
    obtain ⟨_, _, hc⟩ := hi h
    exact ⟨_, _, hc.aside (by rw [run]) rfl⟩
  case case5 hi =>
    obtain ⟨_, _, hc⟩ := hi h
    exact ⟨_, _, hc.aside (by rw [run]) rfl⟩
  case case6 =>
    obtain ⟨rfl, rfl⟩ := List.cons.inj h
    exact ⟨_, _, by rw [run]; rfl, rfl, rfl⟩
  case case7 ht _ _ =>
    obtain ⟨rfl, rfl⟩ := List.cons.inj h
    exact ⟨_, _, eq_clear_of_take ht ▸ run_invoke ht, eq_clear_of_take ht ▸ rfl, rfl⟩
  case case8 ht _ =>
    obtain ⟨rfl, rfl⟩ := List.cons.inj h
    exact ⟨_, _, run_invoke_stale ht, rfl, rfl⟩
  case case9 =>
    obtain ⟨rfl, rfl⟩ := List.cons.inj h
    exact ⟨_, _, by rw [run]; rfl, rfl, rfl⟩

theorem exists_continues {before since : List Occurrence} (h : runJournal stack r = before ++ since) :
    ∃ rest deeds, Continues stack r before since rest deeds := by
  induction before generalizing stack r
  case nil => exact ⟨stack, [], rfl, h, rfl⟩
  case cons j before hi =>
    have ⟨_, _, hn⟩ := exists_next h
    have ⟨_, _, hc⟩ := hi hn.journal
    exact ⟨_, _, hn.trans hc⟩

end Running

-- The calls that come from outside.
inductive Call where
  | register (a : Action)
  | invoke (t : Token)
  | revoke (ts : List Token)

def called (r : Registry) : Call → Registry
  | .register a => (r.register a).2
  | .invoke t => (r.invoke t).registry
  | .revoke ts => (r.revoke ts).2

def calledAll (r : Registry) (calls : List Call) : Registry :=
  calls.foldl called r

-- What is done in the course of a call, by the caller and by the actions that run because of it.
def callJournal (r : Registry) : Call → List Occurrence
  | .register a => [.issued (r.register a).1 a]
  | .invoke t =>
    match r.take t with
    | some (a, r') => .ran t a :: runJournal [a] r'
    | none => [.refused t]
  | .revoke ts => [.revoked ts (r.revoke ts).1]

def journal (r : Registry) : List Call → List Occurrence
  | [] => []
  | call :: calls => r.callJournal call ++ (r.called call).journal calls

section Calls

variable (r : Registry) (call : Call) (calls more : List Call)

theorem replay_callJournal : r.replay (r.callJournal call) = r.called call := by
  cases call
  case register => rfl
  case revoke => rfl
  case invoke t =>
    cases h : r.take t
    case none => simp [callJournal, called, invoke, h, replay, Occurrence.uses, afterAll]
    case some p =>
      obtain ⟨a, r'⟩ := p
      simp only [callJournal, called, invoke, h, replay, List.flatMap_cons, uses_runJournal]
      exact eq_clear_of_take h ▸ (registry_run [a] r').symm

theorem callJournal_bears : Bears r (r.callJournal call) := by
  cases call
  case register => exact .issued .nil
  case revoke => exact .revoked .nil
  case invoke t =>
    cases h : r.take t
    case none => simpa only [callJournal, h] using .refused (find?_of_take_eq_none h) .nil
    case some p =>
      obtain ⟨a, r'⟩ := p
      simp only [callJournal, h]
      exact .ran (find?_of_take h) <| eq_clear_of_take h ▸ runJournal_bears [a] r'

theorem replay_journal : r.replay (r.journal calls) = r.calledAll calls := by
  induction calls generalizing r
  case nil => rfl
  case cons call calls hi => rw [journal, replay_append, replay_callJournal, hi]; rfl

theorem journal_bears : Bears r (r.journal calls) := by
  induction calls generalizing r
  case nil => exact .nil
  case cons call calls hi =>
    exact (r.callJournal_bears call).append <| r.replay_callJournal call ▸ hi (r.called call)

theorem journal_append : r.journal (calls ++ more) =
    r.journal calls ++ (r.calledAll calls).journal more := by
  induction calls generalizing r
  case nil => rfl
  case cons call calls hi => simp [journal, hi, calledAll]

end Calls

end ModelAudit.Registry

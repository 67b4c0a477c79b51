import ModelAudit.Registry.Basic
import ModelAudit.Error
import ModelAudit.LogEvent

namespace ModelAudit

inductive Registry.Answer where
  | done
  | stale (token : Token)
  | panicked (message : String)
deriving DecidableEq, Repr

structure Registry.Outcome where
  deeds : List Deed
  registry : Registry
  answer : Registry.Answer
deriving DecidableEq, Repr

namespace Registry

def Outcome.after (o : Outcome) (earlier : List Deed) : Outcome :=
  { o with deeds := earlier ++ o.deeds }

def stackSize (stack : List Action) : Nat :=
  Action.totalSize stack

-- A panic ends all of them. The end is reached since an action that runs is no longer kept, so that
-- everything it does is done once.
def run (stack : List Action) (r : Registry) : Outcome :=
  match stack with
  | [] => ⟨[], r, .done⟩
  | .done :: rest => run rest r
  | .panic message :: _ => ⟨[], r, .panicked message⟩
  | .display trace next :: rest => (run (next :: rest) r).after [.displayed trace]
  | .note text next :: rest => (run (next :: rest) r).after [.noted text]
  | .register inner next :: rest =>
    have := r.weight_register inner
    (run (next :: rest) (r.register inner).2).after
      [.noted ("registered " ++ (r.register inner).1.text)]
  | .invoke name token next :: rest =>
    match h : r.take token with
    | some (a, r') =>
      have := weight_take h
      -- the note is taken when the invoked action has come to its end
      (run (a :: .note (name ++ ": ok") next :: rest) r').after [.invoked token]
    | none =>
      (run (next :: rest) r).after
        [.foundStale token, .noted (name ++ ": " ++ (AuditError.staleToken token).message)]
  | .revoke tokens next :: rest =>
    have := r.weight_revoke_le tokens
    (run (next :: rest) (r.revoke tokens).2).after
      [.noted ("revoked " ++ Text.natural (r.revoke tokens).1)]
termination_by stackSize stack + r.weight
decreasing_by all_goals simp_all [stackSize, Action.totalSize, Action.size]; try omega

def invoke (r : Registry) (token : Token) : Outcome :=
  match r.take token with
  | some (a, r') => (run [a] r').after [.invoked token]
  | none => ⟨[.foundStale token], r, .stale token⟩

def describe (r : Registry) : String :=
  "TraceActionRegistry \x7b registered: " ++ Text.natural r.size ++ " \x7d"

end Registry

inductive Display where
  | kept
  | logged
  | printed
deriving DecidableEq, Repr

def Deed.log (d : Display) : Deed → List LogEvent
  | .invoked token => [.traceInvoked token.text]
  | .foundStale token => [.staleToken token.text]
  | .displayed trace =>
    match d with
    | .logged => [.traceShown trace.template trace.steps.length]
    | _ => []
  | .noted _ => []

def Deed.displayed? : Deed → Option Trace
  | .displayed trace => some trace
  | _ => none

def Deed.noted? : Deed → Option String
  | .noted text => some text
  | _ => none

end ModelAudit

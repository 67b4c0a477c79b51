import ModelAudit.Token
import ModelAudit.Trace

namespace ModelAudit

inductive Action where
  | done
  -- Fails with a message, and with it whoever invoked the action.
  | panic (message : String)
  | display (trace : Trace) (next : Action)
  | note (text : String) (next : Action)
  | register (inner next : Action)
  -- The note that is taken of it calls the token by the given name.
  | invoke (name : String) (token : Token) (next : Action)
  | revoke (tokens : List Token) (next : Action)
deriving DecidableEq, Repr, Inhabited

inductive Deed where
  | invoked (token : Token)
  | foundStale (token : Token)
  | displayed (trace : Trace)
  | noted (text : String)
deriving DecidableEq, Repr

namespace Action

-- The actions that are put into the registry count as well.
def size : Action → Nat
  | done => 1
  | panic _ => 1
  | display _ next => next.size + 1
  | note _ next => next.size + 1
  | register inner next => inner.size + next.size + 1
  | invoke _ _ next => next.size + 2
  | revoke _ next => next.size + 1

def totalSize : List Action → Nat
  | [] => 0
  | a :: as => a.size + totalSize as

theorem totalSize_append (as bs : List Action) :
    totalSize (as ++ bs) = totalSize as + totalSize bs := by
  induction as with
  | nil => simp [totalSize]
  | cons a as ih => simp [totalSize, ih, Nat.add_assoc]

def displaying (trace : Trace) : Action :=
  display trace done

end Action

end ModelAudit

import ModelAudit.Record
import ModelAudit.Registry.Basic

namespace ModelAudit

structure RunId where
  number : Nat
deriving DecidableEq, Repr

namespace RunId

-- Runs are counted from one.
def none : RunId := ⟨0⟩

def text (r : RunId) : String :=
  "run-" ++ Text.natural r.number

end RunId

structure Published where
  record : Record
  token : Option Token
deriving DecidableEq, Repr

structure Completion where
  run : RunId
  -- There is none if the specification could not be read.
  digest : Option String
  results : List Published
  overall : Bool
deriving DecidableEq, Repr

namespace Completion

def records (c : Completion) : List Record :=
  c.results.map (·.record)

def failedCount (c : Completion) : Nat :=
  c.records.countP fun r => !r.satisfied

def tokens (c : Completion) : List Token :=
  c.results.filterMap (·.token)

end Completion

inductive RunEvent where
  | started (run : RunId) (digest : Option String)
  | progress (run : RunId) (completed : Nat) (check : String)
  | completed (completion : Completion)
  | cancelled (run : RunId)
deriving DecidableEq, Repr

def RunEvent.run : RunEvent → RunId
  | started run _ => run
  | progress run _ _ => run
  | completed completion => completion.run
  | cancelled run => run

end ModelAudit

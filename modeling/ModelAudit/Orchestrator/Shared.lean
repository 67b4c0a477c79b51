import ModelAudit.Registry.Basic
import ModelAudit.Problem

namespace ModelAudit

-- Others use the registry and the problem list at any time, also while a run publishes its results.
structure Shared where
  registry : Registry := {}
  problems : ProblemList := {}
deriving DecidableEq, Repr

inductive Visit where
  | register (a : Action)
  -- The first step of invoking a token: what is kept under it is taken out.
  | take (t : Token)
  | revoke (ts : List Token)
  | push (p : Problem)
  | remove (origin : Problem.Origin)
deriving DecidableEq, Repr

-- What others do before each access of the one that publishes; at the end of the list, nothing.
abbrev Visits :=
  List (List Visit)

namespace Shared

def visit (s : Shared) : Visit → Shared
  | .register a => { s with registry := (s.registry.register a).2 }
  | .take t => { s with registry := s.registry.clear t }
  | .revoke ts => { s with registry := (s.registry.revoke ts).2 }
  | .push p => { s with problems := s.problems.push p }
  | .remove origin => { s with problems := s.problems.remove origin }

def visitAll (s : Shared) (vs : List Visit) : Shared :=
  vs.foldl visit s

def yield (s : Shared) (visits : Visits) : Shared :=
  s.visitAll (visits.headD [])

end Shared

end ModelAudit

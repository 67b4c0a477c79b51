import ModelAudit.Orchestrator.Work

namespace ModelAudit.Orchestrator

-- What happens is a sequence of single steps, which several callers and the work of runs take in any
-- order.
inductive Happening where
  | start (text : String) (document : Document)
  -- What others did meanwhile comes with the step.
  | work (run : RunId) (visits : Visits)
  | visit (v : Visit)
  | invoke (token : Token)
  | takeHandle
  | release
  | abandon

namespace State

-- Work that has no next step leaves the state as it is.
def after (o : Orchestrator) (s : State) : Happening → State
  | .start text document => (s.start text document).2
  | .work run visits => (s.advance? o visits run).getD s
  | .visit v => s.visit v
  | .invoke token => (s.invoke o token).2
  | .takeHandle => s.takeHandle.2
  | .release => s.release
  | .abandon => s.abandon

def afterAll (o : Orchestrator) (s : State) (history : List Happening) : State :=
  history.foldl (after o) s

end State

inductive Reachable (o : Orchestrator) : State → Prop where
  | initial {s : State} : o.initial = .ok s → Reachable o s
  | after {s : State} (h : Happening) : Reachable o s → Reachable o (s.after o h)

theorem Reachable.afterAll {o : Orchestrator} {s : State} (hs : Reachable o s)
    (history : List Happening) : Reachable o (s.afterAll o history) := by
  induction history generalizing s with
  | nil => exact hs
  | cons h history ih => exact ih (hs.after h)

theorem Reachable.settle {o : Orchestrator} {s : State} (hs : Reachable o s) (run : RunId) :
    Reachable o (s.settle o run) := by
  fun_induction s.settle o run with
  | case1 s _ => exact hs
  | case2 s s' h _ ih =>
    have hs' : Reachable o (s.after o (.work run [])) := hs.after _
    rw [State.after, h] at hs'
    exact ih hs'

end ModelAudit.Orchestrator

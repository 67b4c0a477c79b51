import ModelAudit.Session.Await

namespace ModelAudit.Session.Awaited

inductive Happening where
  | turn (turn : Turn)
  | interrupt

-- Nobody looks whether the run is still active. One that is over, with its last event still to be read,
-- is not asked to stop but followed by another one.
def interrupt (a : Awaited) : Awaited :=
  match a.waiting with
  | .reading _ => { a with state := (a.state.trigger .button).2 }
  | .ended _ => a

def after (o : Orchestrator) (a : Awaited) : Happening → Awaited
  | .turn turn => a.take o turn
  | .interrupt => a.interrupt

def afterAll (o : Orchestrator) (a : Awaited) (history : List Happening) : Awaited :=
  history.foldl (after o) a

end ModelAudit.Session.Awaited

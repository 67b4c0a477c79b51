import ModelAudit.Session.History

namespace ModelAudit.Session

-- What a single caller does. The work of the runs does not wait for it, and may have come to any point
-- in between.
inductive Operation where
  | trigger (trigger : Trigger)
  | setDocument (d : Document)
  | documentChanged
  | setSpecText (text : String)
  | suppress
  | background (h : Orchestrator.Happening)

namespace State

def operate (o : Orchestrator) (s : State) : Operation → State
  | .trigger trigger => (s.trigger trigger).2
  | .setDocument d => s.setDocument d
  | .documentChanged => s.documentChanged
  | .setSpecText text => s.setSpecText text
  | .suppress => s.suppress
  | .background h => { s with orchestrator := s.orchestrator.after o h }

def operateAll (o : Orchestrator) (s : State) (operations : List Operation) : State :=
  operations.foldl (operate o) s

end State

end ModelAudit.Session

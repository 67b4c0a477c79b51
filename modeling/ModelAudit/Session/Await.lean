import ModelAudit.Session.History

namespace ModelAudit

inductive Waiting where
  | reading (receiver : Receiver)
  | ended (completion : Option Completion)

namespace Waiting

def read (c : Channel RunEvent) : Waiting → Waiting
  | ended completion => ended completion
  | reading r =>
    match c.receive r with
    | (.value (.completed completion), _) => ended (some completion)
    | (.value (.cancelled _), _) => ended none
    | (_, r) => reading r

def readTimes (c : Channel RunEvent) : Nat → Waiting → Waiting
  | 0, w => w
  | n + 1, w => (w.read c).readTimes c n

def readAll (c : Channel RunEvent) (w : Waiting) : Waiting :=
  -- besides the events there is one notice of missed ones at most
  w.readTimes c (c.sent.length + 1)

end Waiting

namespace Session

-- The work goes on in the background. A reader that is slow misses events, but not the last one.
structure Awaited where
  state : State
  waiting : Waiting

inductive Turn where
  | reader
  | work (run : RunId) (visits : Visits)

namespace Awaited

def begin (s : State) (trigger : Trigger) : Awaited where
  state := (s.trigger trigger).2
  waiting := .reading s.orchestrator.channel.subscribe

def take (o : Orchestrator) (a : Awaited) : Turn → Awaited
  | .reader => { a with waiting := a.waiting.read a.state.orchestrator.channel }
  | .work run visits =>
    let orchestrator := a.state.orchestrator.after o (.work run visits)
    { a with state := { a.state with orchestrator } }

def finish (o : Orchestrator) (a : Awaited) : Awaited :=
  let orchestrator := a.state.orchestrator.settleAll o
  { state := { a.state with orchestrator }
    waiting := a.waiting.readAll orchestrator.channel }

end Awaited

end Session

end ModelAudit

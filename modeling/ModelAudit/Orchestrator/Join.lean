import ModelAudit.Orchestrator.History

namespace ModelAudit.Orchestrator

-- A call takes the run that it is to wait for before it waits, so that no other call finds it there.
-- Anything may happen between the two.
inductive JoinCall where
  | begun
  | waiting (run : RunId)
  | returned
deriving DecidableEq, Repr

-- A call that finds no run to wait for is done.
def State.joinStep (s : State) : JoinCall → JoinCall × State
  | .begun =>
    let (run?, s) := s.takeHandle
    (match run? with
      | some run => .waiting run
      | none => .returned, s)
  | .waiting run => (if (s.task? run).isSome then .waiting run else .returned, s)
  | .returned => (.returned, s)

theorem State.join_eq_joinStep (o : Orchestrator) (s : State) :
    s.join o = match s.joinStep .begun with
      | (.waiting run, s) => s.settle o run
      | (_, s) => s := by
  cases h : s.handle <;> simp [join, joinStep, takeHandle, h]

structure Lobby where
  state : State
  calls : List JoinCall := []

namespace Lobby

inductive Happening where
  | join
  | joinStep (index : Nat)
  | orchestrator (h : Orchestrator.Happening)

def joinStep (l : Lobby) (index : Nat) : Lobby :=
  match l.calls[index]? with
  | none => l
  | some call =>
    let (call, state) := l.state.joinStep call
    { state, calls := l.calls.set index call }

def after (o : Orchestrator) (l : Lobby) : Happening → Lobby
  | .join => { l with calls := l.calls ++ [.begun] }
  | .joinStep index => l.joinStep index
  | .orchestrator h => { l with state := l.state.after o h }

def afterAll (o : Orchestrator) (l : Lobby) (history : List Happening) : Lobby :=
  history.foldl (after o) l

end Lobby

end ModelAudit.Orchestrator

import ModelAudit.Orchestrator.History
import ModelAudit.Session.Basic

namespace ModelAudit.Session

structure Scene where
  state : State
  calls : List (Trigger × Call) := []

inductive Happening where
  | call (trigger : Trigger)
  | callStep (index : Nat)
  | setDocument (d : Document)
  | documentChanged
  | setSpecText (text : String)
  | suppress
  | watch
  | watcherStep (index : Nat)
  | orchestrator (h : Orchestrator.Happening)

namespace Scene

def callStep (s : Scene) (index : Nat) : Scene :=
  match s.calls[index]? with
  | none => s
  | some (trigger, call) =>
    let (call, state) := s.state.callStep trigger call
    { state, calls := s.calls.set index (trigger, call) }

def watcherStep (s : Scene) (index : Nat) : Scene :=
  match s.state.watchers[index]? with
  | none => s
  | some w =>
    let (w, state) := s.state.watcherStep w
    { s with state := { state with watchers := state.watchers.set index w } }

def after (o : Orchestrator) (s : Scene) : Happening → Scene
  | .call trigger => { s with calls := s.calls ++ [(trigger, .begun)] }
  | .callStep index => s.callStep index
  | .setDocument d => { s with state := s.state.setDocument d }
  | .documentChanged => { s with state := s.state.documentChanged }
  | .setSpecText text => { s with state := s.state.setSpecText text }
  | .suppress => { s with state := s.state.suppress }
  | .watch => { s with state := s.state.watch }
  | .watcherStep index => s.watcherStep index
  | .orchestrator h =>
    { s with state := { s.state with orchestrator := s.state.orchestrator.after o h } }

end Scene

inductive Reachable (o : Orchestrator) (d : Document) : Scene → Prop where
  | initial {s : State} : Session.initial o d = .ok s → Reachable o d { state := s }
  | after {s : Scene} (h : Happening) : Reachable o d s → Reachable o d (s.after o h)

-- The orchestrator of a session sees nothing but histories of its own.
theorem Reachable.orchestrator {o : Orchestrator} {d : Document} {s : Scene}
    (hs : Reachable o d s) : o.Reachable s.state.orchestrator := by
  induction hs with
  | initial h => exact .initial (orchestrator_of_initial h)
  | @after s h _ ih =>
    cases h with
    | callStep index =>
      simp only [Scene.after, Scene.callStep]
      split
      · exact ih
      · rename_i trigger call _
        cases call with
        | hasText d text => exact ih.after (.start text d)
        | answered outcome => cases outcome <;> exact ih
        | _ => exact ih
    | watcherStep index =>
      simp only [Scene.after, Scene.watcherStep]
      split
      · exact ih
      · rename_i w _
        simp only [State.watcherStep]
        split
        · exact ih
        · split
          · exact ih
          · split <;> exact ih
    | orchestrator h => exact ih.after h
    | _ => exact ih

end ModelAudit.Session

import ModelAudit.Orchestrator.Work
import ModelAudit.Session.Provider

namespace ModelAudit

inductive Trigger where
  | button
  | shortcut
deriving DecidableEq, Repr

namespace Session

open Orchestrator (StartOutcome)

def specificationOf (d : Document) : String :=
  d.specification.getD CheckSet.emptyText

structure Watcher where
  follower : Follower
  -- A change was noticed, and nothing was read since.
  noticed : Bool := false
  -- The specification that was read and not stored yet.
  text : Option String := none
deriving DecidableEq, Repr

structure State where
  orchestrator : Orchestrator.State
  provider : Provider
  specText : String
  lastTrigger : Option Trigger := none
  suppressed : Bool := false
  watchers : List Watcher := []

-- Others may act between the steps of a call and between those of a watcher.
inductive Call where
  | begun
  | hasDocument (d : Document)
  | hasText (d : Document) (text : String)
  | answered (outcome : StartOutcome)
  | returned (outcome : StartOutcome)

namespace State

def documentChanged (s : State) : State :=
  { s with specText := specificationOf s.provider.current }

def setSpecText (s : State) (text : String) : State :=
  { s with specText := text }

def setDocument (s : State) (d : Document) : State :=
  { s with provider := s.provider.set d }

def suppress (s : State) : State :=
  { s with suppressed := true }

def shouldAnnounce (s : State) : Bool :=
  s.lastTrigger == some .shortcut && !s.suppressed

def remember (s : State) (trigger : Trigger) : StartOutcome → State
  | .started _ => { s with lastTrigger := some trigger }
  | _ => s

def callStep (s : State) (trigger : Trigger) : Call → Call × State
  | .begun => (.hasDocument s.provider.current, s)
  | .hasDocument d => (.hasText d s.specText, s)
  | .hasText d text =>
    let (outcome, orchestrator) := s.orchestrator.start text d
    (.answered outcome, { s with orchestrator })
  | .answered outcome => (.returned outcome, s.remember trigger outcome)
  | .returned outcome => (.returned outcome, s)

def trigger (s : State) (trigger : Trigger) : StartOutcome × State :=
  let (outcome, orchestrator) := s.orchestrator.start s.specText s.provider.current
  (outcome, { s with orchestrator }.remember trigger outcome)

def watch (s : State) : State :=
  { s with watchers := s.watchers ++ [{ follower := s.provider.follow }] }

def watcherStep (s : State) (w : Watcher) : Watcher × State :=
  match w.text with
  | some text => ({ w with text := none }, s.setSpecText text)
  | none =>
    if w.noticed then
      ({ w with noticed := false, text := some (specificationOf s.provider.current) }, s)
    else if s.provider.HasNews w.follower then
      ({ w with follower := s.provider.follow, noticed := true }, s)
    else (w, s)

def watcherSettle (s : State) (w : Watcher) : Watcher × State :=
  let (w, s) := s.watcherStep w
  let (w, s) := s.watcherStep w
  s.watcherStep w

def watchersSettle (s : State) : State :=
  let (watchers, s) := s.watchers.foldl
    (fun (ws, s) w => let (w, s) := watcherSettle s w; (ws ++ [w], s)) ([], s)
  { s with watchers := watchers }

theorem trigger_eq_callSteps (s : State) (t : Trigger) :
    let first := s.callStep t .begun
    let second := first.2.callStep t first.1
    let third := second.2.callStep t second.1
    third.2.callStep t third.1 =
      (.returned (s.trigger t).1, (s.trigger t).2) :=
  rfl

end State

def initial (o : Orchestrator) (d : Document) : Except Channel.Refusal State :=
  o.initial.map fun orchestrator =>
    { orchestrator, provider := { current := d }, specText := specificationOf d }

theorem orchestrator_of_initial {o : Orchestrator} {d : Document} {s : State} (h : initial o d = .ok s) :
    o.initial = .ok s.orchestrator := by
  unfold initial at h
  cases hi : o.initial with
  | error => rw [hi] at h; cases h
  | ok => rw [hi] at h; cases h; rfl

def describe (o : Orchestrator) (s : State) : String :=
  "SanitySession \x7b orchestrator: " ++ o.describe s.orchestrator ++ ", announcements_suppressed: " ++
    Record.describeFlag s.suppressed ++ " \x7d"

end Session

end ModelAudit

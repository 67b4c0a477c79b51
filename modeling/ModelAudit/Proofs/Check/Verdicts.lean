import ModelAudit.Proofs.Activity.Conclusion
import ModelAudit.Check.Catalog

namespace ModelAudit

-- What a check comes to if nobody asks it to stop.
def Checking.ComesTo {α : Type} (c : Checking α) (result : Except AuditError α) : Prop :=
  Activity.Concludes c (.value result)

namespace Checking.ComesTo

variable {α β : Type} {c : Checking α} {f : α → Checking β} {a : α} {e : AuditError}

theorem ending {result : Except AuditError α} (h : c.ComesTo result) :
    (c.perform .never).ending = .value result :=
  Activity.Concludes.ending h

theorem pure (a : α) : (Pure.pure a : Checking α).ComesTo (.ok a) :=
  .done

theorem throw (e : AuditError) : (MonadExcept.throw e : Checking α).ComesTo (.error e) :=
  .done

theorem ofExcept (result : Except AuditError α) : (Checking.ofExcept result).ComesTo result :=
  .done

theorem poll : Checking.poll.ComesTo (.ok ()) :=
  Activity.Concludes.poll .done

theorem bind {result : Except AuditError β} (h : c.ComesTo (.ok a)) (hf : (f a).ComesTo result) :
    (c >>= f).ComesTo result :=
  Activity.Concludes.bind h hf

theorem bind_error (h : c.ComesTo (.error e)) : (c >>= f).ComesTo (.error e) :=
  Activity.Concludes.bind h .done

-- Nobody asked it to stop, and that is what the look shows.
theorem exists_poll {next : Bool → Activity (Except AuditError α)}
    (h : ∃ a : α, ComesTo (next false) (.ok a)) : ∃ a : α, ComesTo (Activity.poll next) (.ok a) :=
  h.imp fun _ => Activity.Concludes.poll

end Checking.ComesTo

open Checking

namespace Template

variable (t : Template)

theorem exploreFrom_comesTo (goal : Option String) (found : List Edge) (queue : List String) :
    ∃ found', (t.exploreFrom goal found queue).ComesTo (.ok found') := by
  fun_induction exploreFrom t goal found queue
  case case1 => exact ⟨_, .pure _⟩
  case case2 hi =>
    refine ComesTo.exists_poll ?_
    dsimp only
    split
    · cases ‹false = true›
    · split
      · exact ⟨_, .done⟩
      · exact hi

theorem reachable_comesTo : ∃ reached, t.reachable.ComesTo (.ok reached) :=
  have ⟨_, h⟩ := t.exploreFrom_comesTo none [] [t.init]
  ⟨_, h.bind <| .pure _⟩

theorem pathTo_comesTo (location : String) : ∃ path?, (t.pathTo location).ComesTo (.ok path?) := by
  unfold pathTo
  split
  · exact ⟨_, .pure _⟩
  · have ⟨_, h⟩ := t.exploreFrom_comesTo (some location) [] [t.init]
    exact ⟨_, h.bind <| .pure _⟩

end Template

theorem Request.error_of_require {r : Request} {name : String} {e : AuditError}
    (h : r.require name = .error e) : e = .missingParameter r.check name := by
  unfold require at h
  split at h
  · split at h <;> cases h
    rfl
  · cases h
    rfl

-- The second record says what the first one says, without a trace. There is one in the first record only
-- if the model is at fault.
structure Record.ReducesTo (r r' : Record) : Prop where
  check     : r.check = r'.check
  message   : r.message = r'.message
  satisfied : r.satisfied = r'.satisfied
  traceless : r'.hasTrace = false
  traced    : r.hasTrace = true → r.satisfied = false

theorem Record.ReducesTo.refl {r : Record} (h : r.trace = none) : r.ReducesTo r where
  check     := rfl
  message   := rfl
  satisfied := rfl
  traceless := by simp [hasTrace, h]
  traced    := by simp [hasTrace, h]

theorem Record.ReducesTo.violated (check message : String) (trace : Option Action) :
    { Record.violated check message with trace := trace }.ReducesTo (.violated check message) where
  check     := rfl
  message   := rfl
  satisfied := rfl
  traceless := rfl
  traced    := fun _ => rfl

-- The verdicts of the two checkers in a case where both are asked.
inductive Check.Agree : Except AuditError Record → Except AuditError Record → Prop
  | record {r r'} (h : r.ReducesTo r') : Agree (.ok r) (.ok r')
  | error {e} (h : e ≠ .cancelled) : Agree (.error e) (.error e)

-- The same question to the two checkers.
structure Context.Counterpart (c c' : Context) : Prop where
  document : c'.document = c.document
  check    : c'.request.check = c.request.check
  text?    : ∀ name ≠ Checker.parameterName, c'.request.text? name = c.request.text? name
  symbolic : c.checker = .symbolic
  concrete : c'.checker = .concrete

namespace Context.Counterpart

variable {c c' : Context} (h : c.Counterpart c')

include h

theorem producesTraces : c.checker.producesTraces = true ∧ c'.checker.producesTraces = false := by
  rw [h.symbolic, h.concrete]
  exact ⟨rfl, rfl⟩

theorem attachTrace_symbolic (r : Record) (trace : Trace) :
    c.attachTrace r trace = { r with trace := some (.displaying trace) } := by
  rw [attachTrace, if_pos h.producesTraces.left]

theorem attachTrace_concrete (r : Record) (trace : Trace) : c'.attachTrace r trace = r := by
  rw [attachTrace, h.producesTraces.right]
  rfl

theorem require {name : String} (hn : name ≠ Checker.parameterName) :
    c'.request.require name = c.request.require name := by
  rw [Request.require, Request.require, h.text? name hn, h.check]

theorem scope? : Check.scope? c'.request = Check.scope? c.request := by
  rw [Check.scope?, Check.scope?, h.text? "template" (by decide)]

theorem unknownTemplate? : Check.unknownTemplate? c' = Check.unknownTemplate? c := by
  rw [Check.unknownTemplate?, Check.unknownTemplate?, h.scope?, h.document]

end Context.Counterpart

namespace Check

-- The check comes to the same verdict with either checker.
def Impartial (check : Check) : Prop :=
  ∀ {c c' : Context}, c.Counterpart c' →
    ∃ result result', (check.run c).ComesTo result ∧ (check.run c').ComesTo result' ∧ Agree result result'

section Unreachable

theorem unreachable_comesTo (ts : List Template) : ∃ names, (unreachable ts).ComesTo (.ok names) := by
  induction ts
  case nil => exact ⟨_, .pure _⟩
  case cons t ts hi =>
    have ⟨_, ht⟩ := t.reachable_comesTo
    have ⟨_, hi⟩ := hi
    exact ⟨_, ht.bind <| hi.bind <| .pure _⟩

theorem impartial_templateLocations : templateLocations.Impartial := by
  intro c c' hc
  have ⟨names, hn⟩ := unreachable_comesTo c.document.templates
  refine ⟨_, _, hn.bind <| .pure _, (hc.document ▸ hn).bind <| .pure _, .record <| .refl ?_⟩
  split <;> rfl

end Unreachable

section DeadEnds

-- The dead ends of a template, whether or not anybody looks for a trace.
def stuckIn (t : Template) (locations : List String) : List String :=
  locations.filter (fun l => (t.outgoing l).isEmpty) |>.map (qualified t)

def stuck (ts : List Template) : List String :=
  ts.flatMap fun t => stuckIn t t.locations

theorem deadEndsOf_comesTo (traces : Bool) (t : Template) (locations : List String)
    (trace : Option Trace) :
    ∃ trace', (deadEndsOf traces t locations trace).ComesTo (.ok (stuckIn t locations, trace')) := by
  induction locations generalizing trace
  case nil => exact ⟨trace, .pure _⟩
  case cons l ls hi =>
    by_cases hl : (t.outgoing l).isEmpty = true
    case neg =>
      rw [deadEndsOf, if_neg hl]
      simpa [stuckIn, hl] using hi trace
    case pos =>
      have hs : stuckIn t (l :: ls) = qualified t l :: stuckIn t ls := by simp [stuckIn, hl]
      rw [deadEndsOf, if_pos hl, hs]
      dsimp only
      split
      · have ⟨path?, hp⟩ := t.pathTo_comesTo l
        have ⟨trace', hr⟩ := hi <| path?.map (Trace.ofEdges t)
        exact ⟨trace', hp.bind <| .bind (.pure _) <| hr.bind <| .pure _⟩
      · have ⟨trace', hr⟩ := hi trace
        exact ⟨trace', .bind (.pure _) <| hr.bind <| .pure _⟩

theorem deadEnds_comesTo (traces : Bool) (ts : List Template) (trace : Option Trace) :
    ∃ trace', (deadEnds traces ts trace).ComesTo (.ok (stuck ts, trace')) := by
  induction ts generalizing trace
  case nil => exact ⟨trace, .pure _⟩
  case cons t ts hi =>
    have ⟨trace', ht⟩ := deadEndsOf_comesTo traces t t.locations trace
    have ⟨trace'', hr⟩ := hi trace'
    exact ⟨trace'', ComesTo.poll.bind <| ht.bind <| hr.bind <| .pure _⟩

theorem deadEndRecord_reducesTo {c c' : Context} (hc : c.Counterpart c') (names : List String)
    (trace trace' : Option Trace) :
    (deadEndRecord c names trace).ReducesTo (deadEndRecord c' names trace') := by
  have h' : deadEndRecord c' names trace' = deadEndRecord c' names none := by
    cases trace'
    case none => rfl
    case some trace' => exact hc.attachTrace_concrete ..
  rw [h']
  cases trace
  case none => exact .violated _ _ none
  case some trace =>
    simp only [deadEndRecord, hc.attachTrace_symbolic]
    exact .violated ..

theorem impartial_deadlockLocations : deadlockLocations.Impartial := by
  intro c c' hc
  have ⟨trace, h⟩ := deadEnds_comesTo c.checker.producesTraces c.document.templates none
  have ⟨trace', h'⟩ := deadEnds_comesTo c'.checker.producesTraces c'.document.templates none
  refine ⟨_, _, h.bind <| .pure _, h'.bind <| .pure _, .record ?_⟩
  rw [hc.document]
  split
  · exact .refl (r := .passed ..) rfl
  · exact deadEndRecord_reducesTo hc ..

end DeadEnds

section ReceivedSends

variable {c c' : Context}

theorem unreceived_agree (hc : c.Counterpart c') (channel : String) (t : Template) (send : Edge) :
    ∃ result result', (unreceived c channel t send).ComesTo result ∧
      (unreceived c' channel t send).ComesTo result' ∧ Agree result result' := by
  have ⟨path?, hp⟩ := t.pathTo_comesTo send.source
  have ⟨ht, ht'⟩ := hc.producesTraces
  have hs : unreceived c' channel t send =
      pure (.violated "receivesyncs" (unreceivedMessage channel (scope? c.request) t send)) := by
    rw [unreceived, ht', hc.scope?]
    rfl
  rw [unreceived, if_pos ht, hs]
  cases path?
  case none => exact ⟨_, _, hp.bind <| .pure _, .pure _, .record <| .violated _ _ none⟩
  case some path =>
    refine ⟨_, _, hp.bind <| .pure _, .pure _, .record ?_⟩
    rw [hc.attachTrace_symbolic]
    exact .violated ..

theorem receiveSyncsOn_agree (hc : c.Counterpart c') (channel : String) :
    ∃ result result', (receiveSyncsOn c channel).ComesTo result ∧
      (receiveSyncsOn c' channel).ComesTo result' ∧ Agree result result' := by
  unfold receiveSyncsOn
  rw [hc.unknownTemplate?, hc.scope?, hc.document]
  split
  · exact ⟨_, _, .throw _, .throw _, .error nofun⟩
  · split
    · exact ⟨_, _, .pure _, .pure _, .record <| .refl rfl⟩
    · split
      · exact ⟨_, _, .pure _, .pure _, .record <| .refl rfl⟩
      · exact unreceived_agree hc ..

theorem run_receiveSyncs {channel : String} {result : Except AuditError Record}
    (hr : c.request.require "channel" = .ok channel) (h : (receiveSyncsOn c channel).ComesTo result) :
    (receiveSyncs.run c).ComesTo result := by
  have hp : (ofExcept (c.request.require "channel")).ComesTo (.ok channel) := hr ▸ .ofExcept _
  exact hp.bind h

theorem refuse_receiveSyncs {e : AuditError} (hr : c.request.require "channel" = .error e) :
    (receiveSyncs.run c).ComesTo (.error e) := by
  have hp : (ofExcept (c.request.require "channel")).ComesTo (.error e) := hr ▸ .ofExcept _
  exact hp.bind_error

theorem impartial_receiveSyncs : receiveSyncs.Impartial := by
  intro c c' hc
  have hr : c'.request.require "channel" = c.request.require "channel" := hc.require (by decide)
  cases hq : c.request.require "channel"
  case ok channel =>
    have ⟨_, _, h, h', ha⟩ := receiveSyncsOn_agree hc channel
    exact ⟨_, _, run_receiveSyncs hq h, run_receiveSyncs (hr.trans hq) h', ha⟩
  case error e =>
    exact ⟨_, _, refuse_receiveSyncs hq, refuse_receiveSyncs (hr.trans hq), .error <| by
      rw [Request.error_of_require hq]; nofun⟩

end ReceivedSends

end Check

end ModelAudit

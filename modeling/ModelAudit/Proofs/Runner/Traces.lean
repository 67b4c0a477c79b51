import ModelAudit.Proofs.Check.Verdicts
import ModelAudit.Proofs.Runner.Isolation

namespace ModelAudit

open Checking

-- If the record comes with an action, the action shows a trace and does no more.
def Record.ShowsTrace (r : Record) : Prop :=
  ∀ a, r.trace = some a → ∃ trace, a = .displaying trace

theorem Record.ShowsTrace.of_untraced {r : Record} (h : r.trace = none) : r.ShowsTrace :=
  fun _ ha => nomatch h.symm.trans ha

theorem Record.ShowsTrace.attachTrace {r : Record} (h : r.ShowsTrace) (c : Context) (trace : Trace) :
    (c.attachTrace r trace).ShowsTrace := by
  unfold Context.attachTrace
  split
  · rintro _ ⟨⟩
    exact ⟨trace, rfl⟩
  · exact h

-- What comes to an error, or to a record of that kind.
inductive Checking.ShowsTraces (c : Checking Record) : Prop
  | record {r} (h : c.ComesTo (.ok r)) (hr : r.ShowsTrace)
  | error {e} (h : c.ComesTo (.error e))

namespace Check

variable {c : Context}

theorem showsTraces_templateLocations (c : Context) : (templateLocations.run c).ShowsTraces := by
  have ⟨names, h⟩ := unreachable_comesTo c.document.templates
  refine .record (h.bind <| .pure _) <| .of_untraced ?_
  split <;> rfl

theorem deadEndRecord_showsTrace (c : Context) (names : List String) (trace : Option Trace) :
    (deadEndRecord c names trace).ShowsTrace := by
  cases trace
  case none => exact .of_untraced rfl
  case some trace => exact Record.ShowsTrace.of_untraced rfl |>.attachTrace c trace

theorem showsTraces_deadlockLocations (c : Context) : (deadlockLocations.run c).ShowsTraces := by
  have ⟨trace, h⟩ := deadEnds_comesTo c.checker.producesTraces c.document.templates none
  refine .record (h.bind <| .pure _) ?_
  split
  · exact .of_untraced rfl
  · exact deadEndRecord_showsTrace c _ _

theorem unreceived_showsTraces (c : Context) (channel : String) (t : Template) (send : Edge) :
    (unreceived c channel t send).ShowsTraces := by
  have ⟨path?, h⟩ := t.pathTo_comesTo send.source
  unfold unreceived
  split
  case isFalse => exact .record (.pure _) <| .of_untraced rfl
  case isTrue =>
    cases path?
    case none => exact .record (h.bind <| .pure _) <| .of_untraced rfl
    case some => exact .record (h.bind <| .pure _) <| Record.ShowsTrace.of_untraced rfl |>.attachTrace c _

theorem receiveSyncsOn_showsTraces (c : Context) (channel : String) :
    (receiveSyncsOn c channel).ShowsTraces := by
  unfold receiveSyncsOn
  split
  · exact .error <| .throw _
  · split
    · exact .record (.pure _) <| .of_untraced rfl
    · split
      · exact .record (.pure _) <| .of_untraced rfl
      · exact unreceived_showsTraces ..

theorem showsTraces_receiveSyncs (c : Context) : (receiveSyncs.run c).ShowsTraces := by
  cases hq : c.request.require "channel"
  case error => exact .error <| refuse_receiveSyncs hq
  case ok channel =>
    cases receiveSyncsOn_showsTraces c channel
    case record h hr => exact .record (run_receiveSyncs hq h) hr
    case error h => exact .error <| run_receiveSyncs hq h

end Check

namespace Catalog

variable {d : Document} {e : Entry} {record : Record}

theorem showsTraces_of_get?_builtin {name : String} {check : Check}
    (h : builtin.get? name = some check) (c : Context) : (check.run c).ShowsTraces := by
  have hm := List.mem_of_find?_eq_some h
  simp only [checks_builtin, List.mem_cons, List.not_mem_nil, or_false] at hm
  obtain rfl | rfl | rfl := hm
  · exact Check.showsTraces_templateLocations c
  · exact Check.showsTraces_receiveSyncs c
  · exact Check.showsTraces_deadlockLocations c

theorem Finds.showsTrace (h : builtin.Finds d e record) : record.ShowsTrace := by
  cases h
  case found r check checker h _ hr =>
    cases showsTraces_of_get?_builtin h ⟨d, r, checker⟩
    case record h hs =>
      cases hr.unique h
      exact hs
    case error h => cases hr.unique h
  all_goals exact .of_untraced rfl

theorem showsTrace_of_finds {es : List Entry} {records : List Record}
    (h : List.Forall₂ (builtin.Finds d) es records) : ∀ r ∈ records, r.ShowsTrace := by
  induction h
  case nil => nofun
  case cons hf _ hi => exact List.forall_mem_cons.mpr ⟨hf.showsTrace, hi⟩

-- The records of an undisturbed run over the checks of the library.
theorem showsTrace_of_runner (spec : CheckSet) (d : Document) :
    ∀ r ∈ ((builtin.runner spec d).perform .never).records, r.ShowsTrace :=
  showsTrace_of_finds <| finds_of_runner answers_builtin spec d

end Catalog

end ModelAudit

import ModelAudit.Proofs.Activity.Cancellation
import ModelAudit.Check.Catalog

namespace ModelAudit

-- The work of a check delivers nothing, and it ends as cancelled if and only if a look told it to.
def Checking.Heedful {α : Type} (c : Checking α) : Prop :=
  Activity.Prompt (· ≠ .error .cancelled) 0 c

namespace Checking.Heedful

variable {α β : Type} {c : Checking α} {f : α → Checking β}

theorem pure (a : α) : (Pure.pure a : Checking α).Heedful :=
  .done nofun

theorem throw {e : AuditError} (h : e ≠ .cancelled) : (MonadExcept.throw e : Checking α).Heedful :=
  .done fun he => h <| Except.error.inj he

theorem poll : Checking.poll.Heedful :=
  Activity.Prompt.poll rfl <| .done nofun

theorem bind (h : c.Heedful) (hf : ∀ a, (f a).Heedful) : (c >>= f).Heedful := by
  refine Activity.Prompt.bind (n := 0) h rfl fun r hr => ?_
  cases r
  case ok a => exact hf a
  case error e => exact .done fun he => hr <| congrArg Except.error <| Except.error.inj he

end Checking.Heedful

open Checking

namespace Template

variable (t : Template)

theorem exploreFrom_heedful (goal : Option String) (found : List Edge) (queue : List String) :
    (t.exploreFrom goal found queue).Heedful := by
  fun_induction exploreFrom t goal found queue
  case case1 => exact .pure _
  case case2 hi =>
    refine Activity.Prompt.poll rfl ?_
    dsimp only
    split
    · cases ‹false = true›
    · split
      · exact .done nofun
      · exact hi

theorem reachable_heedful : t.reachable.Heedful :=
  t.exploreFrom_heedful .. |>.bind fun _ => .pure _

theorem pathTo_heedful (location : String) : (t.pathTo location).Heedful := by
  unfold pathTo
  split
  · exact .pure _
  · exact t.exploreFrom_heedful .. |>.bind fun _ => .pure _

end Template

namespace Check

theorem unreachable_heedful (ts : List Template) : (unreachable ts).Heedful := by
  induction ts
  case nil => exact .pure _
  case cons t ts hi => exact t.reachable_heedful.bind fun _ => hi.bind fun _ => .pure _

theorem deadEndsOf_heedful (traces : Bool) (t : Template) (ls : List String) (trace : Option Trace) :
    (deadEndsOf traces t ls trace).Heedful := by
  induction ls generalizing trace
  case nil => exact .pure _
  case cons l ls hi =>
    unfold deadEndsOf
    split
    · have hrest (trace) := hi trace |>.bind fun r => Heedful.pure (qualified t l :: r.1, r.2)
      dsimp only
      split
      · exact t.pathTo_heedful l |>.bind fun _ => .bind (.pure _) fun _ => hrest _
      · exact .bind (.pure _) fun _ => hrest _
    · exact hi trace

theorem deadEnds_heedful (traces : Bool) (ts : List Template) (trace : Option Trace) :
    (deadEnds traces ts trace).Heedful := by
  induction ts generalizing trace
  case nil => exact .pure _
  case cons t ts hi =>
    exact .bind .poll fun _ => deadEndsOf_heedful .. |>.bind fun _ => hi _ |>.bind fun _ => .pure _

theorem unreceived_heedful (c : Context) (channel : String) (t : Template) (send : Edge) :
    (unreceived c channel t send).Heedful := by
  unfold unreceived
  split
  · refine t.pathTo_heedful _ |>.bind fun path => ?_
    cases path <;> exact .pure _
  · exact .pure _

theorem receiveSyncsOn_heedful (c : Context) (channel : String) :
    (receiveSyncsOn c channel).Heedful := by
  unfold receiveSyncsOn
  split
  · exact .throw nofun
  · split
    · exact .pure _
    · split
      · exact .pure _
      · exact unreceived_heedful ..

end Check

namespace Catalog

theorem checks_builtin :
    builtin.checks = [Check.templateLocations, Check.receiveSyncs, Check.deadlockLocations] :=
  rfl

-- Whatever check of the library a request asks for, its work is heedful.
theorem heedful_of_get?_builtin {name : String} {check : Check}
    (h : builtin.get? name = some check) (c : Context) : (check.run c).Heedful := by
  have hm := List.mem_of_find?_eq_some h
  simp only [checks_builtin, List.mem_cons, List.not_mem_nil, or_false] at hm
  obtain rfl | rfl | rfl := hm
  · exact Check.unreachable_heedful _ |>.bind fun _ => .pure _
  · refine .bind ?_ fun channel => Check.receiveSyncsOn_heedful c channel
    refine .done ?_
    unfold Request.require
    split
    · split <;> nofun
    · nofun
  · exact Check.deadEnds_heedful .. |>.bind fun _ => .pure _

end Catalog

end ModelAudit

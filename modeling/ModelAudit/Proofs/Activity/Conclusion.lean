import ModelAudit.Proofs.Activity.Cancellation

namespace ModelAudit.Activity

variable {α β : Type} {a : Activity α} {e : Ending α}

-- The activity ends so if each of its looks shows that nobody asked it to stop. It neither delivers
-- records nor stands at a gate, and it does not ask itself to stop.
inductive Concludes : Activity α → Ending α → Prop
  | done {x} : Concludes (done x) (.value x)
  | panic {message} : Concludes (panic message) (.panicked message)
  | poll {next e} (h : Concludes (next false) e) : Concludes (poll next) e
  | emit {event next e} (h : Concludes next e) : Concludes (emit event next) e

namespace Concludes

theorem unique {e' : Ending α} (h : a.Concludes e) (h' : a.Concludes e') : e = e' := by
  induction h
  case done => cases h'; rfl
  case panic => cases h'; rfl
  case poll hi => cases h'; exact hi ‹_›
  case emit hi => cases h'; exact hi ‹_›

theorem not_waiting : ¬a.Concludes .waiting := by
  intro h
  generalize he : Ending.waiting = e at h
  induction h
  case done | panic => cases he
  case poll hi | emit hi => exact hi he

theorem bind {x : α} {f : α → Activity β} {e : Ending β} (h : a.Concludes (.value x))
    (hf : (f x).Concludes e) : (a.bind f).Concludes e := by
  generalize he : Ending.value x = e' at h
  induction h
  case done => cases he; exact hf
  case panic => cases he
  case poll hi => exact .poll <| hi he
  case emit hi => exact .emit <| hi he

theorem rescue_value {x : α} (h : a.Concludes (.value x)) (f : Option String → α) :
    (a.rescue f).Concludes (.value x) := by
  generalize he : Ending.value x = e' at h ⊢
  induction h
  case done => exact .done
  case panic => cases he
  case poll hi => exact .poll <| hi he
  case emit hi => exact .emit <| hi he

theorem rescue_panicked {message : Option String} (h : a.Concludes (.panicked message))
    (f : Option String → α) : (a.rescue f).Concludes (.value <| f message) := by
  generalize he : Ending.panicked message = e' at h
  induction h
  case done => cases he
  case panic => cases he; exact .done
  case poll hi => exact .poll <| hi he
  case emit hi => exact .emit <| hi he

theorem performFrom_ending (h : a.Concludes e) {p : Progress} (hp : p.raised = false) :
    (a.performFrom .never p).ending = e := by
  induction h generalizing p
  case done | panic => rfl
  case poll hi =>
    simp only [performFrom, sees_never hp]
    exact hi rfl
  case emit hi => exact hi hp

theorem ending (h : a.Concludes e) : (a.perform .never).ending = e :=
  h.performFrom_ending rfl

-- Work that nobody disturbs hands its value over to what follows. All that is different then are the log
-- and the number of looks.
theorem performFrom_bind {x : α} (h : a.Concludes (.value x)) (f : α → Activity β) {p : Progress}
    (hp : p.raised = false) : ∃ q : Progress, q.raised = false ∧
      ((a.bind f).performFrom .never p).records = ((f x).performFrom .never q).records ∧
      ((a.bind f).performFrom .never p).ending = ((f x).performFrom .never q).ending := by
  generalize he : Ending.value x = e at h
  induction h generalizing p
  case done => cases he; exact ⟨p, hp, rfl, rfl⟩
  case panic => cases he
  case poll hi =>
    simp only [Activity.bind, performFrom, sees_never hp]
    exact hi rfl he
  case emit hi => exact hi hp he

end Concludes

-- Work that ends at the first look which shows the flag raised has a conclusion if there is none.
theorem Prompt.exists_concludes {Q : Except AuditError α → Prop} {a : Activity (Except AuditError α)}
    (h : Prompt Q 0 a) : ∃ r, Q r ∧ a.Concludes (.value r) := by
  generalize hn : 0 = n at h
  induction h
  case done r h => exact ⟨r, h, .done⟩
  case poll hi => exact (hi hn).imp fun _ hr => hr.imp_right .poll
  case emit hi => exact (hi hn).imp fun _ hr => hr.imp_right .emit
  case deliver => cases hn

end ModelAudit.Activity

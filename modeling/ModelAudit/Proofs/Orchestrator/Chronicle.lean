import ModelAudit.Orchestrator.History

namespace ModelAudit.Orchestrator

-- An incident is a fact about a run that somebody inside or outside of it has seen.
inductive Incident where
  | answered (outcome : StartOutcome)
  | delivered (run : RunId) (record : Record)
  | returned (run : RunId) (result : Except AuditError Unit)
  | abandoned

namespace Incident

def launched? : Incident → Option RunId
  | answered (.started run) => some run
  | _ => none

def deliveredBy? (run : RunId) : Incident → Option Record
  | delivered r record => if r = run then some record else none
  | _ => none

-- The run that has been at work.
def worker? : Incident → Option RunId
  | delivered run _ => some run
  | returned run _ => some run
  | _ => none

-- The runs that were launched, in order.
def launched (facts : List Incident) : List RunId :=
  facts.filterMap launched?

-- The records that the runner delivered for a run, in order.
def recordsOf (run : RunId) (facts : List Incident) : List Record :=
  facts.filterMap (deliveredBy? run)

-- Somebody was told that the run was asked to stop, or the owner went.
def Asked (run : RunId) (facts : List Incident) : Prop :=
  answered (.cancelRequested run) ∈ facts ∨ abandoned ∈ facts

def Untouched (run : RunId) (facts : List Incident) : Prop :=
  ∀ f ∈ facts, f.worker? ≠ some run

variable {facts more : List Incident} {run : RunId}

theorem launched_append : launched (facts ++ more) = launched facts ++ launched more :=
  List.filterMap_append

theorem launched_append_eq (h : ∀ f ∈ more, f.launched? = none) (facts : List Incident) :
    launched (facts ++ more) = launched facts := by
  have hn : launched more = [] := List.filterMap_eq_nil_iff.mpr h
  rw [launched_append, hn, List.append_nil]

theorem recordsOf_append : recordsOf run (facts ++ more) = recordsOf run facts ++ recordsOf run more :=
  List.filterMap_append

theorem recordsOf_delivered {record : Record} :
    recordsOf run (facts ++ [delivered run record]) = recordsOf run facts ++ [record] := by
  simp [recordsOf, deliveredBy?]

theorem recordsOf_returned {r : RunId} {result : Except AuditError Unit} :
    recordsOf run (facts ++ [returned r result]) = recordsOf run facts := by
  rw [recordsOf_append]
  exact List.append_nil _

theorem Asked.append (h : Asked run facts) : Asked run (facts ++ more) :=
  h.imp (List.mem_append_left _) (List.mem_append_left _)

namespace Untouched

theorem recordsOf_eq_nil (h : Untouched run facts) : recordsOf run facts = [] := by
  refine List.filterMap_eq_nil_iff.mpr fun f hf => ?_
  cases f
  case delivered r _ =>
    have hn : r ≠ run := fun he => h _ hf <| congrArg some he
    exact if_neg hn
  all_goals rfl

theorem not_returned (h : Untouched run facts) (result : Except AuditError Unit) :
    .returned run result ∉ facts :=
  fun hm => h _ hm rfl

theorem recordsOf_append_eq (h : Untouched run more) (facts : List Incident) :
    recordsOf run (facts ++ more) = recordsOf run facts := by
  rw [recordsOf_append, h.recordsOf_eq_nil, List.append_nil]

theorem returned_of_append {result : Except AuditError Unit} (h : Untouched run more)
    (hm : .returned run result ∈ facts ++ more) : .returned run result ∈ facts :=
  List.mem_append.mp hm |>.resolve_right <| h.not_returned result

end Untouched

end Incident

-- What a task is about to do with the button, the records or the end of the runner.
def Task.incidents (s : State) (t : Task) : List Incident :=
  match t.stage with
  | .checking (.press _) _ => [.answered (s.start "" { name := "toggle" }).1]
  | .checking (.deliver record _) _ => [.delivered t.run record]
  | .checking (.done result) _ => [.returned t.run result]
  | _ => []

namespace State

-- The incidents of one moment.
def incidents (s : State) : Happening → List Incident
  | .start text document => [.answered (s.start text document).1]
  | .work run _ => ((s.task? run).map (Task.incidents s)).getD []
  | .abandon => [.abandoned]
  | _ => []

-- The incidents of a history, in order.
def chronicle (o : Orchestrator) (s : State) : List Happening → List Incident
  | [] => []
  | h :: history => s.incidents h ++ (s.after o h).chronicle o history

-- Whoever starts a run while one is active asks that one to stop.
theorem answered_of_running {s : State} {run : RunId} (hp : s.phase = .running)
    (ha : s.active.map (·.run) = some run) (text : String) (document : Document) :
    .answered (.cancelRequested run) ∈ s.incidents (.start text document) := by
  simp [incidents, start, hp, requestCancel, ha]

-- All that is left open in the beginning is how many events the channel keeps.
theorem eq_of_initial {o : Orchestrator} {s : State} (h : o.initial = .ok s) :
    ∃ capacity, s = { channel := { capacity := capacity } } := by
  simp only [initial, Channel.create] at h
  split at h
  · cases h
  · split at h
    · cases h
    · split at h <;> cases h
      exact ⟨_, rfl⟩

theorem initial_of_runner (runner : Runner) :
    ({ runner := runner } : Orchestrator).initial = .ok { channel := { capacity := 64 } } := by
  simp [initial, Channel.create, Channel.roundUp, Channel.maxSize, Channel.slotSize, Except.map]

theorem afterAll_cons (o : Orchestrator) (s : State) (h : Happening) (history : List Happening) :
    s.afterAll o (h :: history) = (s.after o h).afterAll o history :=
  rfl

theorem afterAll_append (o : Orchestrator) (s : State) (history more : List Happening) :
    s.afterAll o (history ++ more) = (s.afterAll o history).afterAll o more :=
  List.foldl_append

theorem afterAll_concat (o : Orchestrator) (s : State) (history : List Happening) (h : Happening) :
    s.afterAll o (history ++ [h]) = (s.afterAll o history).after o h :=
  s.afterAll_append o history [h]

end State

end ModelAudit.Orchestrator

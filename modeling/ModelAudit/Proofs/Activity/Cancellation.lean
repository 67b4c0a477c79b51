import ModelAudit.Activity.Perform

namespace ModelAudit.Activity

variable {α β : Type}

-- An activity that ends with the cancellation error only after its flag was raised. There are three ways
-- to know that it was: a look has shown it, a gate that heeds the flag has turned it away, or the activity
-- has pressed the button itself.
inductive StopsOnlyWhenAsked : Bool → Activity (Except AuditError α) → Prop
  | done {asked result} (h : result = .error .cancelled → asked = true) :
    StopsOnlyWhenAsked asked (done result)
  | panic {asked message} : StopsOnlyWhenAsked asked (panic message)
  | poll {asked next} (hf : asked = false → StopsOnlyWhenAsked false (next false))
    (ht : StopsOnlyWhenAsked true (next true)) : StopsOnlyWhenAsked asked (poll next)
  | press {asked next} (h : StopsOnlyWhenAsked true next) : StopsOnlyWhenAsked asked (press next)
  | emit {asked event next} (h : StopsOnlyWhenAsked asked next) :
    StopsOnlyWhenAsked asked (emit event next)
  | deliver {asked record next} (h : StopsOnlyWhenAsked asked next) :
    StopsOnlyWhenAsked asked (deliver record next)
  | gate {asked heedsFlag passed stopped} (hp : StopsOnlyWhenAsked asked passed)
    (hs : heedsFlag = true → StopsOnlyWhenAsked true stopped) :
    StopsOnlyWhenAsked asked (gate heedsFlag passed stopped)

theorem StopsOnlyWhenAsked.of_asked (a : Activity (Except AuditError α)) : StopsOnlyWhenAsked true a := by
  induction a
  case done => exact .done fun _ => rfl
  case panic => exact .panic
  case poll hi => exact .poll nofun (hi true)
  case press hi => exact .press hi
  case emit hi => exact .emit hi
  case deliver hi => exact .deliver hi
  case gate hp hs => exact .gate hp fun _ => hs

-- An activity that ends with the cancellation error as soon as a look shows the flag raised. If no look
-- does, it delivers so many records and ends with a result of the given kind.
inductive Prompt (Q : Except AuditError α → Prop) : Nat → Activity (Except AuditError α) → Prop
  | done {result} (h : Q result) : Prompt Q 0 (done result)
  | poll {n next} (ht : next true = done (.error .cancelled)) (hf : Prompt Q n (next false)) :
    Prompt Q n (poll next)
  | emit {n event next} (h : Prompt Q n next) : Prompt Q n (emit event next)
  | deliver {n record next} (h : Prompt Q n next) : Prompt Q (n + 1) (deliver record next)

-- What is to be seen of an activity: its looks at the flag, what it logs and what it delivers.
inductive Moment where
  | looked (raised : Bool)
  | logged (event : LogEvent)
  | delivered (record : Record)
deriving DecidableEq

def Moment.record? : Moment → Option Record
  | delivered record => some record
  | _ => none

-- The moments of an activity in order, from the given point on.
def courseFrom (timing : Timing) : Progress → Activity α → List Moment
  | _, done _ | _, panic _ => []
  | p, poll next =>
    .looked (sees timing p) ::
      (next (sees timing p)).courseFrom timing
        { p with polls := p.polls + 1, raised := sees timing p }
  | p, press next => next.courseFrom timing { p with raised := true }
  | p, emit event next => .logged event :: next.courseFrom timing p
  | p, deliver record next =>
    .delivered record :: next.courseFrom timing { p with deliveries := p.deliveries + 1 }
  | p, gate heedsFlag _ stopped =>
    if heedsFlag && sees timing p then
      .looked true :: stopped.courseFrom timing { p with polls := p.polls + 1, raised := true }
    else []

def course (timing : Timing) (a : Activity α) : List Moment :=
  a.courseFrom timing {}

-- The first course is the second one up to a look, which shows the flag raised and is the last moment.
inductive Cut : List Moment → List Moment → Prop
  | here {rest} : Cut [.looked true] (.looked false :: rest)
  | later {m cut full} : Cut cut full → Cut (m :: cut) (m :: full)

-- What becomes of work that would deliver so many records if nobody ever asked it to stop.
structure Obeys (timing : Timing) (a : Activity (Except AuditError Unit)) (total : Nat) : Prop where
  undisturbed : (a.perform .never).ending = .value (.ok ()) ∧ (a.perform .never).records.length = total
  records     : (a.perform timing).records <+: (a.perform .never).records
  ok_iff      : (a.perform timing).ending = .value (.ok ()) ↔ .looked true ∉ a.course timing
  complete    : (a.perform timing).ending = .value (.ok ()) →
    (a.perform timing).records = (a.perform .never).records
  cancelled   : .looked true ∈ a.course timing →
    (a.perform timing).ending = .value (.error .cancelled) ∧ Cut (a.course timing) (a.course .never)

theorem Cut.mem {cut full : List Moment} (h : Cut cut full) : .looked true ∈ cut := by
  induction h
  case here => exact List.mem_singleton_self _
  case later hi => exact List.mem_cons_of_mem _ hi

theorem Cut.records_prefix {cut full : List Moment} (h : Cut cut full) :
    cut.filterMap Moment.record? <+: full.filterMap Moment.record? := by
  induction h
  case here => exact List.nil_prefix
  case later m _ _ _ hi =>
    cases hm : m.record?
    case none => simpa [hm] using hi
    case some => simpa [hm] using hi

theorem records_performFrom (timing : Timing) (p : Progress) (a : Activity α) :
    (a.performFrom timing p).records = (a.courseFrom timing p).filterMap Moment.record? := by
  induction a generalizing p
  case done | panic => rfl
  case poll next hi => exact hi ..
  case press hi | emit hi => exact hi _
  case deliver hi => exact congrArg _ <| hi _
  case gate hs =>
    simp only [performFrom, courseFrom]
    split
    · exact hs _
    · rfl

theorem sees_never {p : Progress} (h : p.raised = false) : sees .never p = false := by
  simp [sees, h, Timing.never]

namespace Prompt

variable {Q : Except AuditError α → Prop} {R : Except AuditError β → Prop}
  {a : Activity (Except AuditError α)} {m n : Nat}

-- What follows must not make anything else of the cancellation error.
theorem bind {f : Except AuditError α → Activity (Except AuditError β)} (h : Prompt Q m a)
    (hc : f (.error .cancelled) = .done (.error .cancelled)) (hf : ∀ r, Q r → Prompt R n (f r)) :
    Prompt R (n + m) (a.bind f) := by
  induction h
  case done h => exact hf _ h
  case poll ht _ hi => exact .poll (by simp [ht, Activity.bind, hc]) hi
  case emit hi => exact .emit hi
  case deliver hi => exact .deliver hi

theorem rescue_eq (h : Prompt Q n a) (f : Option String → Except AuditError α) :
    a.rescue f = a := by
  induction h
  case done => rfl
  case poll next ht _ hi =>
    refine congrArg Activity.poll <| funext fun b => ?_
    cases b
    case false => exact hi
    case true => simp [ht, rescue]
  case emit hi | deliver hi => simp [rescue, hi]

theorem stopsOnlyWhenAsked (h : Prompt Q n a) (hq : ∀ r, Q r → r ≠ .error .cancelled) :
    StopsOnlyWhenAsked false a := by
  induction h
  case done h => exact .done fun he => absurd he <| hq _ h
  case poll ht _ hi => exact .poll (fun _ => hi) (ht ▸ .done fun _ => rfl)
  case emit hi => exact .emit hi
  case deliver hi => exact .deliver hi

-- Undisturbed, prompt work comes to its end.
theorem performFrom_never {p : Progress} (h : Prompt Q n a) (hp : p.raised = false) :
    (∃ r, Q r ∧ (a.performFrom .never p).ending = .value r) ∧
      (a.performFrom .never p).records.length = n := by
  induction h generalizing p
  case done r h => exact ⟨⟨r, h, rfl⟩, rfl⟩
  case poll hi =>
    simp only [performFrom, sees_never hp]
    exact hi rfl
  case emit hi => exact hi hp
  case deliver hi =>
    have ⟨he, hl⟩ := hi (p := { p with deliveries := p.deliveries + 1 }) hp
    exact ⟨he, congrArg (· + 1) hl⟩

-- Prompt work goes on as if nobody could disturb it up to the first look that shows the flag raised, and
-- there it ends.
theorem undisturbed_or_cut {p : Progress} (h : Prompt Q n a) (hp : p.raised = false)
    (timing : Timing) :
    (.looked true ∉ a.courseFrom timing p ∧ a.performFrom timing p = a.performFrom .never p) ∨
      (Cut (a.courseFrom timing p) (a.courseFrom .never p) ∧
        (a.performFrom timing p).ending = .value (.error .cancelled)) := by
  induction h generalizing p
  case done => exact .inl ⟨List.not_mem_nil, rfl⟩
  case poll next ht _ hi =>
    simp only [courseFrom, performFrom, sees_never hp]
    cases sees timing p
    case true =>
      rw [ht]
      exact .inr ⟨.here, rfl⟩
    case false =>
      refine hi (p := { p with polls := p.polls + 1, raised := false }) rfl |>.imp ?_ ?_
      · exact fun ⟨hn, he⟩ => ⟨by simp [hn], he⟩
      · exact fun ⟨hc, he⟩ => ⟨.later hc, he⟩
  case emit hi =>
    refine hi hp |>.imp ?_ ?_
    · exact fun ⟨hn, he⟩ => ⟨by simp [courseFrom, hn], by simp [performFrom, he]⟩
    · exact fun ⟨hc, he⟩ => ⟨.later hc, he⟩
  case deliver hi =>
    refine hi (p := { p with deliveries := p.deliveries + 1 }) hp |>.imp ?_ ?_
    · exact fun ⟨hn, he⟩ => ⟨by simp [courseFrom, hn], by simp [performFrom, he]⟩
    · exact fun ⟨hc, he⟩ => ⟨.later hc, he⟩

theorem obeys {a : Activity (Except AuditError Unit)} (h : Prompt (· = .ok ()) n a)
    (timing : Timing) : Obeys timing a n := by
  have ⟨⟨r, hr, he⟩, hl⟩ := h.performFrom_never (p := {}) rfl
  subst hr
  have he : (a.perform .never).ending = .value (.ok ()) := he
  cases h.undisturbed_or_cut (p := {}) rfl timing
  case inl hu =>
    have ⟨hn, hp⟩ := hu
    have hp : a.perform timing = a.perform .never := hp
    exact {
      undisturbed := ⟨he, hl⟩
      records     := hp ▸ List.prefix_rfl
      ok_iff      := ⟨fun _ => hn, fun _ => hp ▸ he⟩
      complete    := fun _ => hp ▸ rfl
      cancelled   := fun hm => absurd hm hn
    }
  case inr hc =>
    have ⟨hc, he'⟩ := hc
    have hn : (a.perform timing).ending ≠ .value (.ok ()) := fun ho => by cases he'.symm.trans ho
    exact {
      undisturbed := ⟨he, hl⟩
      records     := by simpa only [perform, records_performFrom] using hc.records_prefix
      ok_iff      := ⟨fun ho => absurd ho hn, fun hm => absurd hc.mem hm⟩
      complete    := fun ho => absurd ho hn
      cancelled   := fun _ => ⟨he', hc⟩
    }

-- Prompt work that delivers nothing either sees the flag and is at its end, or hands its result over. All
-- that is different then are the log and the number of looks.
theorem performFrom_bind {f : Except AuditError α → Activity (Except AuditError β)}
    {k l : Nat} (h : Prompt Q 0 a) (hc : f (.error .cancelled) = .done (.error .cancelled))
    (timing : Timing) :
    (∃ k', timing k' l ∧ ((a.bind f).performFrom timing ⟨k, l, false⟩).records = [] ∧
        ((a.bind f).performFrom timing ⟨k, l, false⟩).ending = .value (.error .cancelled)) ∨
      ∃ r k', Q r ∧
        ((a.bind f).performFrom timing ⟨k, l, false⟩).records =
          ((f r).performFrom timing ⟨k', l, false⟩).records ∧
        ((a.bind f).performFrom timing ⟨k, l, false⟩).ending =
          ((f r).performFrom timing ⟨k', l, false⟩).ending := by
  generalize hn : 0 = n at h
  induction h generalizing k
  case done r h => exact .inr ⟨r, k, h, rfl, rfl⟩
  case poll next ht _ hi =>
    simp only [Activity.bind, performFrom, sees, Bool.false_or]
    cases hs : timing k l
    case true =>
      have hb : (next true).bind f = .done (.error .cancelled) := by rw [ht, Activity.bind, hc]
      rw [hb]
      exact .inl ⟨k, hs, rfl, rfl⟩
    case false => exact hi hn
  case emit hi => exact hi hn
  case deliver => cases hn

end Prompt

end ModelAudit.Activity

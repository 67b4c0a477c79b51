import ModelAudit.Proofs.Search.Closure
import Mathlib.Data.List.Nodup
import Mathlib.Data.List.Perm.Subperm

namespace ModelAudit

namespace Checking

open Activity

variable {α β : Type} {c : Checking α} {r : Except AuditError α} {timing : Timing} {p : Progress}

-- Work whose value is only turned into another one does the same as before.
theorem courseFrom_bind_pure (c : Checking α) (g : α → β) (timing : Timing) (p : Progress) :
    courseFrom timing p (c >>= fun a => pure (g a) : Checking β) = courseFrom timing p c := by
  show courseFrom timing p (Activity.bind c (ExceptT.bindCont fun a => pure (g a))) = _
  induction c generalizing p
  case done r => cases r <;> rfl
  case panic => rfl
  case poll hi => exact congrArg _ <| hi _ _
  case press hi => exact hi _
  case emit hi | deliver hi => exact congrArg _ <| hi _
  case gate hs => simp only [Activity.bind, courseFrom, hs]

theorem performFrom_bind_pure (h : (performFrom timing p c).ending = .value r) (g : α → β) :
    (performFrom timing p (c >>= fun a => pure (g a) : Checking β)).ending = .value (r.map g) := by
  show (performFrom timing p (Activity.bind c (ExceptT.bindCont fun a => pure (g a)))).ending = _
  induction c generalizing p
  case done =>
    cases h
    cases r <;> rfl
  case panic => cases h
  case poll hi => exact hi _ h
  case press hi | emit hi | deliver hi => exact hi h
  case gate hs =>
    simp only [Activity.bind, performFrom] at h ⊢
    split
    case isTrue hc =>
      rw [if_pos hc] at h
      exact hs h
    case isFalse hc =>
      rw [if_neg hc] at h
      cases h

end Checking

namespace Template

open Activity

-- How a search goes on that has come to its locations by the edges `found` and has a queue of them to leave: its
-- looks at the flag, the locations that it takes from the queue, one for each look, and the edges that it has in
-- the end, unless it was asked to stop.
inductive Tour (t : Template) (goal : Option String) :
    List Edge → List String → List Moment → List String → Option (List Edge) → Prop
  | exhausted {found} : Tour t goal found [] [] [] (some found)
  | stopped {found location queue} : Tour t goal found (location :: queue) [.looked true] [location] none
  | arrived {found location queue} (hg : ∃ e ∈ t.news found location, some e.target = goal) :
    Tour t goal found (location :: queue) [.looked false] [location]
      (some <| (t.news found location).reverse ++ found)
  | onward {found location queue course left result}
    (hg : ¬∃ e ∈ t.news found location, some e.target = goal)
    (h : Tour t goal ((t.news found location).reverse ++ found)
      (queue ++ (t.news found location).map (·.target)) course left result) :
    Tour t goal found (location :: queue) (.looked false :: course) (location :: left) result

-- What a search comes to that has found these edges or was asked to stop.
def verdict (result : Option (List Edge)) : Except AuditError (List Edge) :=
  result.elim (.error .cancelled) .ok

-- A search from the initial location that takes no location twice, and none that cannot be reached.
structure Departs (t : Template) (goal : Option String) (course : List Moment) (left : List String)
    (result : Option (List Edge)) : Prop where
  tour    : t.Tour goal [] [t.init] course left result
  once    : left.Nodup
  reached : ∀ l ∈ left, t.Reaches l
  looks   : course.length = left.length
  bounded : left.length ≤ t.edges.length + 1

-- What a search for everything comes to.
inductive Covers (t : Template) (course : List Moment) : Except AuditError (List String) → Prop
  | stopped {left} (h : t.Departs none course left none) (hs : .looked true ∈ course) :
    Covers t course (.error .cancelled)
  | complete {left found} (h : t.Departs none course left (some found)) (hl : t.Closure left)
    (hc : course = left.map fun _ => .looked false) (hp : left.Perm (t.seen found)) :
    Covers t course (.ok (t.seen found))

variable {t : Template} {goal : Option String} {found : List Edge} {queue gone left : List String}
  {course : List Moment} {result : Option (List Edge)} {location : String}

theorem exists_tour (t : Template) (goal : Option String) (found : List Edge) (queue : List String)
    (timing : Timing) (p : Progress) :
    ∃ left result, t.Tour goal found queue ((t.exploreFrom goal found queue).courseFrom timing p) left result ∧
      ((t.exploreFrom goal found queue).performFrom timing p).ending = .value (verdict result) := by
  fun_induction exploreFrom t goal found queue generalizing p
  case case1 found => exact ⟨[], some found, .exhausted, rfl⟩
  case case2 found location queue hi =>
    simp only [courseFrom, performFrom]
    cases sees timing p
    case true => exact ⟨[location], none, .stopped, rfl⟩
    case false =>
      simp only [Bool.false_eq_true, if_false, List.any_eq_true, beq_iff_eq]
      by_cases hg : ∃ e ∈ fresh (t.seen found) (t.outgoing location), some e.target = goal
      case pos =>
        rw [if_pos hg]
        exact ⟨_, _, .arrived hg, rfl⟩
      case neg =>
        rw [if_neg hg]
        obtain ⟨left, result, ht, he⟩ := hi { p with polls := p.polls + 1, raised := false }
        exact ⟨location :: left, result, .onward hg ht, he⟩

-- What was taken from the queue and what waits in it is what the search has come to.
theorem perm_leave (h : (gone ++ location :: queue).Perm (t.seen found)) :
    (gone ++ [location] ++ (queue ++ (t.news found location).map (·.target))).Perm
      (t.seen ((t.news found location).reverse ++ found)) := by
  have hs : (t.seen found ++ (t.news found location).map (·.target)).Perm
      (t.seen ((t.news found location).reverse ++ found)) := by
    rw [seen, seen, List.map_append, List.map_reverse, List.cons_append]
    exact .cons _ <| List.perm_append_comm.trans <| (List.reverse_perm _).symm.append_right _
  rw [List.append_assoc, List.singleton_append, ← List.cons_append, ← List.append_assoc]
  exact (h.append_right _).trans hs

-- Whatever is taken from the queue of a search was not taken before.
theorem Tour.accounts (h : t.Tour goal found queue course left result) (gone : List String)
    (hf : t.Frontier found queue) (hp : (gone ++ queue).Perm (t.seen found)) :
    ∃ found' waiting, t.Grown found' ∧ (gone ++ left ++ waiting).Perm (t.seen found') ∧
      ∀ edges, result = some edges →
        edges = found' ∧ t.Frontier found' waiting ∧
          (waiting = [] ∨ ∃ e ∈ found', some e.target = goal) := by
  induction h generalizing gone
  case exhausted found =>
    refine ⟨found, [], hf.grown, ?_, fun _ he => ⟨(Option.some.inj he).symm, hf, .inl rfl⟩⟩
    rwa [List.append_nil]
  case stopped found location queue =>
    refine ⟨found, queue, hf.grown, ?_, nofun⟩
    rwa [List.append_assoc, List.singleton_append]
  case arrived hg =>
    refine ⟨_, _, hf.leave.grown, perm_leave hp, fun _ he => ⟨(Option.some.inj he).symm, hf.leave, .inr ?_⟩⟩
    have ⟨e, he, hg⟩ := hg
    exact ⟨e, List.mem_append_left _ <| List.mem_reverse.mpr he, hg⟩
  case onward location _ _ left _ _ _ hi =>
    have ⟨found', waiting, hg, hl, hr⟩ := hi _ hf.leave (perm_leave hp)
    refine ⟨found', waiting, hg, ?_, hr⟩
    rwa [List.append_assoc gone, List.singleton_append] at hl

theorem Tour.looks (h : t.Tour goal found queue course left result) : course.length = left.length := by
  induction h
  case exhausted | stopped | arrived => rfl
  case onward hi => exact congrArg (· + 1) hi

theorem Tour.stopped_iff (h : t.Tour goal found queue course left result) :
    .looked true ∈ course ↔ result = none := by
  induction h
  case exhausted | stopped | arrived => simp
  case onward hi => simpa using hi

-- A look that does not show the flag raised shows nothing else.
theorem Tour.course_eq (h : t.Tour goal found queue course left result) (hr : result ≠ none) :
    course = left.map fun _ => .looked false := by
  induction h
  case exhausted | arrived => rfl
  case stopped => cases hr rfl
  case onward hi => exact congrArg _ <| hi hr

theorem Grown.mem_edges (h : t.Grown found) {e : Edge} (he : e ∈ found) : e ∈ t.edges := by
  induction h
  case nil => cases he
  case cons hd _ _ hi =>
    cases he
    case head => exact hd
    case tail he => exact hi he

theorem Grown.length_le (h : t.Grown found) : found.length ≤ t.edges.length := by
  have hn : found.Nodup := (List.nodup_cons.mp h.nodup_seen).right.of_map _
  exact (List.subperm_of_subset hn fun _ => h.mem_edges).length_le

theorem Tour.departs (h : t.Tour goal [] [t.init] course left result) :
    t.Departs goal course left result := by
  have ⟨found, waiting, hg, hp, _⟩ := h.accounts [] (.initial t) (.refl _)
  have hn : (left ++ waiting).Nodup := hp.nodup_iff.mpr hg.nodup_seen
  exact {
    tour    := h
    once    := (List.nodup_append.mp hn).left
    reached := fun l hl => ⟨_, hg.chain_pathBack <| hp.subset <| List.mem_append_left _ hl⟩
    looks   := h.looks
    bounded := by
      have hl : (left ++ waiting).length = found.length + 1 := by simpa [seen] using hp.length_eq
      have hb := hg.length_le
      rw [List.length_append] at hl
      omega
  }

theorem exists_departs (t : Template) (goal : Option String) (timing : Timing) :
    ∃ left result, t.Departs goal ((t.explore goal).course timing) left result ∧
      ((t.explore goal).perform timing).ending = .value (verdict result) :=
  have ⟨left, result, ht, he⟩ := t.exists_tour goal [] [t.init] timing {}
  ⟨left, result, ht.departs, he⟩

theorem Departs.closure (h : t.Departs none course left (some found)) :
    t.Closure left ∧ left.Perm (t.seen found) := by
  have ⟨_, waiting, hg, hp, hr⟩ := h.tour.accounts [] (.initial t) (.refl _)
  have ⟨he, hf, hw⟩ := hr found rfl
  subst he
  have hw : waiting = [] := hw.resolve_right fun ⟨_, _, hg⟩ => Option.some_ne_none _ hg
  subst hw
  have hp : left.Perm (t.seen found) := by simpa using hp
  exact ⟨⟨h.once, fun l => hp.mem_iff.trans <| hf.closure.mem_iff l⟩, hp⟩

theorem Departs.grown (h : t.Departs goal course left (some found)) : t.Grown found :=
  have ⟨_, _, hg, _, hr⟩ := h.tour.accounts [] (.initial t) (.refl _)
  (hr found rfl).left ▸ hg

theorem reachable_covers (t : Template) (timing : Timing) :
    ∃ r, (t.reachable.perform timing).ending = .value r ∧ t.Covers (t.reachable.course timing) r := by
  have ⟨left, result, hd, he⟩ := t.exists_departs none timing
  have hc : t.reachable.course timing = (t.explore none).course timing := Checking.courseFrom_bind_pure ..
  refine ⟨_, Checking.performFrom_bind_pure he t.seen, hc ▸ ?_⟩
  cases result
  case none => exact .stopped hd <| hd.tour.stopped_iff.mpr rfl
  case some found =>
    have ⟨hl, hp⟩ := hd.closure
    exact .complete hd hl (hd.tour.course_eq nofun) hp

end Template

end ModelAudit

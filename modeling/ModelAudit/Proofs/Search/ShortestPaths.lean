import ModelAudit.Proofs.Check.Verdicts
import Mathlib.Data.List.Induction

namespace ModelAudit.Template

-- The edges are the template's own, and each one starts where the one before has led.
inductive Chain (t : Template) : String → List Edge → String → Prop
  | nil {l} : Chain t l [] l
  | cons {l l' e path} (he : e ∈ t.edges) (hs : e.source = l) (h : Chain t e.target path l') :
    Chain t l (e :: path) l'

-- The edges lead from the initial location to the given one.
def Reaches (t : Template) (location : String) : Prop :=
  ∃ path, t.Chain t.init path location

structure Shortest (t : Template) (path : List Edge) (location : String) : Prop where
  chain : t.Chain t.init path location
  least : ∀ path', t.Chain t.init path' location → path.length ≤ path'.length

-- What a search for a location is to come to.
inductive Sought (t : Template) (location : String) : Option (List Edge) → Prop
  | found {path} (h : t.Shortest path location) : Sought t location (some path)
  | missing (h : ¬t.Reaches location) : Sought t location none

variable {t : Template} {e : Edge} {l l' location : String} {found path : List Edge}
  {queue : List String}

namespace Chain

theorem snoc (h : t.Chain l path e.source) (he : e ∈ t.edges) :
    t.Chain l (path ++ [e]) e.target := by
  generalize hl : e.source = l' at h
  induction h
  case nil => exact .cons he hl .nil
  case cons hd hs _ hi => exact .cons hd hs <| hi hl

-- The last edge of a chain can be taken off.
theorem of_snoc (h : t.Chain l (path ++ [e]) l') :
    e ∈ t.edges ∧ e.target = l' ∧ t.Chain l path e.source := by
  induction path generalizing l
  case nil =>
    cases h
    case cons he hs h =>
      cases h
      exact ⟨he, rfl, hs ▸ .nil⟩
  case cons hi =>
    cases h
    case cons hd hs h =>
      have ⟨he, ht, h⟩ := hi h
      exact ⟨he, ht, .cons hd hs h⟩

-- A chain that leaves a set of locations does so by one of its edges.
theorem exists_leaving (h : t.Chain l path l') (S : String → Prop) (hl : S l) (hl' : ¬S l') :
    ∃ before e after, path = before ++ e :: after ∧ e ∈ t.edges ∧ t.Chain l before e.source ∧
      S e.source ∧ ¬S e.target := by
  induction h
  case nil => exact absurd hl hl'
  case cons d path hd hs h hi =>
    subst hs
    by_cases ht : S d.target
    case pos =>
      have ⟨before, e, after, hp, he, hc, hin, hout⟩ := hi ht hl'
      exact ⟨d :: before, e, after, congrArg _ hp, he, .cons hd rfl hc, hin, hout⟩
    case neg => exact ⟨[], d, path, rfl, hd, .nil, hl, ht⟩

end Chain

namespace Shortest

theorem nil : t.Shortest [] t.init where
  chain := .nil
  least := fun _ _ => Nat.zero_le _

theorem eq_nil_iff (h : t.Shortest path location) : path = [] ↔ location = t.init := by
  constructor
  case mp =>
    intro hp
    subst hp
    cases h.chain
    rfl
  case mpr =>
    intro hl
    subst hl
    exact List.eq_nil_of_length_eq_zero <| Nat.le_zero.mp <| h.least [] .nil

-- Together with an edge that starts there, it is the shortest of all chains that end with this edge.
theorem least_snoc (h : t.Shortest path e.source) {path' : List Edge}
    (hc : t.Chain t.init (path' ++ [e]) e.target) : (path ++ [e]).length ≤ (path' ++ [e]).length := by
  have hl := h.least path' hc.of_snoc.right.right
  simpa using hl

end Shortest

theorem Sought.isSome_iff {path? : Option (List Edge)} (h : t.Sought location path?) :
    path?.isSome ↔ t.Reaches location := by
  cases h
  case found h => simpa using ⟨_, h.chain⟩
  case missing h => simpa using h

section Seen

theorem init_mem_seen : t.init ∈ t.seen found :=
  List.mem_cons_self

@[simp]
theorem mem_seen_cons : l ∈ t.seen (e :: found) ↔ l = e.target ∨ l ∈ t.seen found := by
  simp [seen, or_left_comm]

theorem mem_seen_append {new : List Edge} :
    l ∈ t.seen (new.reverse ++ found) ↔ l ∈ t.seen found ∨ ∃ e ∈ new, e.target = l := by
  simp [seen, or_comm, or_assoc]

-- All that counts is which locations were seen.
theorem fresh_congr {seen seen' : List String} (h : ∀ l, l ∈ seen ↔ l ∈ seen') (es : List Edge) :
    fresh seen es = fresh seen' es := by
  induction es generalizing seen seen'
  case nil => rfl
  case cons e es hi =>
    have hc : ∀ l, l ∈ e.target :: seen ↔ l ∈ e.target :: seen' := by simp [h]
    simp only [fresh, h, hi hc, hi h]

-- A location that an edge leads to is one that was seen or that a fresh edge leads to.
theorem seen_or_fresh {seen : List String} {es : List Edge} (h : e ∈ es) :
    e.target ∈ seen ∨ ∃ d ∈ fresh seen es, d.target = e.target := by
  induction es generalizing seen
  case nil => cases h
  case cons d es hi =>
    by_cases hd : d.target ∈ seen
    case pos =>
      rw [fresh, if_pos hd]
      cases h
      case head => exact .inl hd
      case tail h => exact hi h
    case neg =>
      rw [fresh, if_neg hd]
      cases h
      case head => exact .inr ⟨e, List.mem_cons_self, rfl⟩
      case tail h =>
        cases (hi h : e.target ∈ d.target :: seen ∨ _)
        case inl hm =>
          cases List.mem_cons.mp hm
          case inl he => exact .inr ⟨d, List.mem_cons_self, he.symm⟩
          case inr hm => exact .inl hm
        case inr hf =>
          obtain ⟨d', hd', ht⟩ := hf
          exact .inr ⟨d', List.mem_cons_of_mem _ hd', ht⟩

end Seen

-- Each of the edges has led from a location that was seen by then to one that was not. The latest one
-- comes first.
inductive Grown (t : Template) : List Edge → Prop
  | nil : Grown t []
  | cons {e : Edge} {found : List Edge} (h : Grown t found) (he : e ∈ t.edges)
    (hs : e.source ∈ t.seen found) (ht : e.target ∉ t.seen found) : Grown t (e :: found)

theorem pathBack_cons_of_seen (ht : e.target ∉ t.seen found) (hl : l ∈ t.seen found) :
    pathBack (e :: found) l = pathBack found l := by
  have hn : e.target ≠ l := fun h => ht <| h ▸ hl
  rw [pathBack, if_neg hn]

namespace Grown

variable (h : t.Grown found)

include h

theorem source_mem_seen (he : e ∈ found) : e.source ∈ t.seen found := by
  induction h
  case nil => cases he
  case cons hs _ hi =>
    rw [mem_seen_cons]
    cases he
    case head => exact .inr hs
    case tail he => exact .inr <| hi he

theorem pathBack_init : pathBack found t.init = [] := by
  induction h
  case nil => rfl
  case cons ht hi => rw [pathBack_cons_of_seen ht init_mem_seen, hi]

theorem pathBack_target (he : e ∈ found) :
    pathBack found e.target = pathBack found e.source ++ [e] := by
  induction h
  case nil => cases he
  case cons found h _ hs ht hi =>
    cases he
    case head => rw [pathBack_cons_of_seen ht hs, pathBack, if_pos rfl]
    case tail he =>
      have hm : e.target ∈ t.seen found := List.mem_cons_of_mem _ <| List.mem_map_of_mem he
      rw [pathBack_cons_of_seen ht hm, pathBack_cons_of_seen ht <| h.source_mem_seen he, hi he]

theorem chain_pathBack (hl : l ∈ t.seen found) : t.Chain t.init (pathBack found l) l := by
  induction h generalizing l
  case nil =>
    cases List.mem_singleton.mp hl
    exact .nil
  case cons e found _ he hs ht hi =>
    cases mem_seen_cons.mp hl
    case inl hl =>
      rw [hl, pathBack, if_pos rfl]
      exact (hi hs).snoc he
    case inr hl => rw [pathBack_cons_of_seen ht hl]; exact hi hl

-- It stays so if a location that was seen is left by all the edges that lead to something new.
theorem append_fresh {es : List Edge} (hl : l ∈ t.seen found)
    (hes : ∀ e ∈ es, e ∈ t.edges ∧ e.source = l) :
    t.Grown ((fresh (t.seen found) es).reverse ++ found) := by
  induction es generalizing found
  case nil => exact h
  case cons e es hi =>
    have ⟨he, hes⟩ := List.forall_mem_cons.mp hes
    by_cases ht : e.target ∈ t.seen found
    case pos =>
      rw [fresh, if_pos ht]
      exact hi h hl hes
    case neg =>
      have hf : fresh (e.target :: t.seen found) es = fresh (t.seen (e :: found)) es :=
        fresh_congr (by simp) es
      rw [fresh, if_neg ht, hf, List.reverse_cons, List.append_assoc, List.singleton_append]
      exact hi (h.cons he.left (he.right ▸ hl) ht) (mem_seen_cons.mpr <| .inr hl) hes

end Grown

-- The ways back to what was seen before stay the same.
theorem pathBack_append_fresh {es : List Edge} (hl : l ∈ t.seen found) :
    pathBack ((fresh (t.seen found) es).reverse ++ found) l = pathBack found l := by
  have hn : ∀ e ∈ fresh (t.seen found) es, e.target ≠ l :=
    fun e he hel => target_not_mem_of_mem_fresh he <| hel ▸ hl
  generalize fresh (t.seen found) es = new at hn
  induction new using List.reverseRecOn
  case nil => rfl
  case append_singleton new e hi =>
    have ⟨hnew, he⟩ := List.forall_mem_append.mp hn
    rw [List.reverse_append, List.reverse_singleton, List.singleton_append, List.cons_append, pathBack,
      if_neg <| he e <| List.mem_singleton_self e, hi hnew]

-- How far away a location is by the edges that a search came along.
def depth (found : List Edge) (location : String) : Nat :=
  (pathBack found location).length

-- The edges by which a location leads to something new.
def news (t : Template) (found : List Edge) (location : String) : List Edge :=
  fresh (t.seen found) (t.outgoing location)

-- What was seen before does not get any nearer.
theorem depth_old (hl : l ∈ t.seen found) :
    depth ((t.news found location).reverse ++ found) l = depth found l :=
  congrArg List.length <| pathBack_append_fresh hl

-- The state of a search. Nothing that was seen is more than one edge further away than what waits in the
-- queue, which is in the order of the distance. An edge that leads out of what was seen starts at a
-- location in the queue.
structure Frontier (t : Template) (found : List Edge) (queue : List String) : Prop where
  grown   : t.Grown found
  queued  : ∀ l ∈ queue, l ∈ t.seen found
  closed  : ∀ e ∈ t.edges, e.source ∈ t.seen found → e.source ∈ queue ∨ e.target ∈ t.seen found
  ordered : queue.Pairwise fun l l' => depth found l ≤ depth found l'
  level   : ∀ l ∈ queue, ∀ l' ∈ t.seen found, depth found l' ≤ depth found l + 1
  nearest : ∀ l ∈ t.seen found, ∀ path, t.Chain t.init path l → depth found l ≤ path.length

namespace Frontier

theorem initial (t : Template) : t.Frontier [] [t.init] where
  grown   := .nil
  queued  := by simp [seen]
  closed  := fun _ _ hs => .inl hs
  ordered := List.pairwise_singleton ..
  level   := by simp [seen, depth, pathBack]
  nearest := by simp [depth, pathBack]

-- A location that was not seen is further away than the one at the head of the queue: on the way there
-- an edge leads out of what was seen, and that edge starts at a location in the queue.
theorem depth_head_lt (h : t.Frontier found (location :: queue)) (hl : l ∉ t.seen found)
    (hc : t.Chain t.init path l) : depth found location < path.length := by
  have ⟨before, e, after, hp, he, hb, hin, hout⟩ := hc.exists_leaving (· ∈ t.seen found) init_mem_seen hl
  have hq : e.source ∈ location :: queue := (h.closed e he hin).resolve_right hout
  have hle : depth found location ≤ depth found e.source := by
    cases List.mem_cons.mp hq
    case inl hq => exact Nat.le_of_eq <| congrArg _ hq.symm
    case inr hq => exact List.rel_of_pairwise_cons h.ordered hq
  calc
    depth found location ≤ depth found e.source := hle
    _ ≤ before.length                           := h.nearest _ hin _ hb
    _ < path.length                             := by simp [hp]

section Leave

variable (h : t.Frontier found (location :: queue))

include h

theorem head_mem_seen : location ∈ t.seen found :=
  h.queued _ List.mem_cons_self

theorem mem_seen_of_mem_queue (hl : l ∈ queue) : l ∈ t.seen found :=
  h.queued l <| List.mem_cons_of_mem _ hl

theorem depth_head_le (hl : l ∈ queue) : depth found location ≤ depth found l :=
  List.rel_of_pairwise_cons h.ordered hl

theorem grown_leave : t.Grown ((t.news found location).reverse ++ found) :=
  h.grown.append_fresh h.head_mem_seen fun _ => mem_outgoing.mp

-- What the head of the queue leads to first is one edge further away than that.
theorem depth_new (he : e ∈ t.news found location) :
    depth ((t.news found location).reverse ++ found) e.target = depth found location + 1 := by
  have hs : e.source = location := (mem_outgoing.mp <| (fresh_sublist ..).mem he).right
  have hm : e ∈ (t.news found location).reverse ++ found :=
    List.mem_append_left _ <| List.mem_reverse.mpr he
  rw [depth, h.grown_leave.pathBack_target hm, List.length_append, hs]
  exact congrArg (· + 1) <| depth_old h.head_mem_seen

theorem depth_leave_le (hl : l ∈ t.seen ((t.news found location).reverse ++ found)) :
    depth ((t.news found location).reverse ++ found) l ≤ depth found location + 1 := by
  cases mem_seen_append.mp hl
  case inl hl => exact depth_old hl ▸ h.level _ List.mem_cons_self l hl
  case inr hl =>
    obtain ⟨e, he, rfl⟩ := hl
    exact Nat.le_of_eq (h.depth_new he)

theorem depth_le_leave (hl : l ∈ queue ++ (t.news found location).map (·.target)) :
    depth found location ≤ depth ((t.news found location).reverse ++ found) l := by
  cases List.mem_append.mp hl
  case inl hl => exact depth_old (h.mem_seen_of_mem_queue hl) ▸ h.depth_head_le hl
  case inr hl =>
    obtain ⟨e, he, rfl⟩ := List.mem_map.mp hl
    exact h.depth_new he ▸ Nat.le_succ _

theorem closed_leave (he : e ∈ t.edges)
    (hs : e.source ∈ t.seen ((t.news found location).reverse ++ found)) :
    e.source ∈ queue ++ (t.news found location).map (·.target) ∨
      e.target ∈ t.seen ((t.news found location).reverse ++ found) := by
  rw [mem_seen_append] at hs ⊢
  rw [List.mem_append]
  cases hs
  case inr hs => exact .inl <| .inr <| List.mem_map.mpr hs
  case inl hs =>
    cases h.closed e he hs
    case inr ht => exact .inr <| .inl ht
    case inl hq =>
      cases List.mem_cons.mp hq
      case inl hq => exact .inr <| seen_or_fresh <| mem_outgoing.mpr ⟨he, hq⟩
      case inr hq => exact .inl <| .inl hq

theorem ordered_leave : (queue ++ (t.news found location).map (·.target)).Pairwise fun l l' =>
    depth ((t.news found location).reverse ++ found) l ≤
      depth ((t.news found location).reverse ++ found) l' := by
  rw [List.pairwise_append]
  refine ⟨?_, ?_, ?_⟩
  · refine h.ordered.tail.imp_of_mem fun hm hm' hle => ?_
    rwa [depth_old <| h.mem_seen_of_mem_queue hm, depth_old <| h.mem_seen_of_mem_queue hm']
  · rw [List.pairwise_map]
    refine List.pairwise_of_forall_mem_list fun e he e' he' => ?_
    exact Nat.le_of_eq <| (h.depth_new he).trans (h.depth_new he').symm
  · intro l hm l' hm'
    obtain ⟨e, he, rfl⟩ := List.mem_map.mp hm'
    rw [h.depth_new he]
    exact h.depth_leave_le <| mem_seen_append.mpr <| .inl <| h.mem_seen_of_mem_queue hm

theorem nearest_leave (hl : l ∈ t.seen ((t.news found location).reverse ++ found))
    (hc : t.Chain t.init path l) :
    depth ((t.news found location).reverse ++ found) l ≤ path.length := by
  by_cases hs : l ∈ t.seen found
  case pos => exact depth_old hs ▸ h.nearest l hs path hc
  case neg =>
    obtain ⟨e, he, rfl⟩ := (mem_seen_append.mp hl).resolve_left hs
    rw [h.depth_new he]
    exact h.depth_head_lt hs hc

-- The head of the queue is left by all the edges that lead to something new.
theorem leave : t.Frontier ((t.news found location).reverse ++ found)
    (queue ++ (t.news found location).map (·.target)) where
  grown   := h.grown_leave
  queued  := fun _ hm =>
    mem_seen_append.mpr <| List.mem_append.mp hm |>.imp h.mem_seen_of_mem_queue List.mem_map.mp
  closed  := fun _ => h.closed_leave
  ordered := h.ordered_leave
  level   := fun _ hm _ hm' =>
    Nat.le_trans (h.depth_leave_le hm') <| Nat.succ_le_succ (h.depth_le_leave hm)
  nearest := fun _ hm _ => h.nearest_leave hm

end Leave

-- The search ends with nothing left in the queue, or early because it has come to its goal.
theorem exploreFrom (h : t.Frontier found queue) (goal : Option String) :
    ∃ found' queue', (t.exploreFrom goal found queue).ComesTo (.ok found') ∧
      t.Frontier found' queue' ∧ (queue' = [] ∨ ∃ e ∈ found', some e.target = goal) := by
  fun_induction Template.exploreFrom t goal found queue
  case case1 found => exact ⟨found, [], .pure _, h, .inl rfl⟩
  case case2 found location queue hi =>
    have hleave := h.leave
    rw [news] at hleave
    generalize hnew : fresh (t.seen found) (t.outgoing location) = new at hi hleave
    by_cases hg : new.any (fun e => some e.target == goal) = true
    case pos =>
      obtain ⟨e, he, hgoal⟩ := List.any_eq_true.mp hg
      refine ⟨_, _, Activity.Concludes.poll ?_, hleave, .inr ⟨e, List.mem_append_left _ <| List.mem_reverse.mpr he,
        eq_of_beq hgoal⟩⟩
      simp only [Bool.false_eq_true, if_false, hg, if_true]
      exact .done
    case neg =>
      obtain ⟨found', queue', hc, hf, hq⟩ := hi hleave
      refine ⟨found', queue', Activity.Concludes.poll ?_, hf, hq⟩
      simp only [Bool.false_eq_true, if_false, hg]
      exact hc

theorem shortest (h : t.Frontier found queue) (hl : l ∈ t.seen found) :
    t.Shortest (pathBack found l) l where
  chain := h.grown.chain_pathBack hl
  least := h.nearest l hl

theorem mem_seen_of_reaches (h : t.Frontier found []) (hr : t.Reaches l) : l ∈ t.seen found := by
  by_contra hl
  have ⟨_, hc⟩ := hr
  have ⟨_, e, _, _, he, _, hin, hout⟩ := hc.exists_leaving (· ∈ t.seen found) init_mem_seen hl
  exact (h.closed e he hin).elim List.not_mem_nil hout

end Frontier

theorem pathTo_sought (t : Template) (location : String) :
    ∃ path?, (t.pathTo location).ComesTo (.ok path?) ∧ t.Sought location path? := by
  by_cases hl : t.init = location
  case pos =>
    refine ⟨some [], ?_, hl ▸ .found .nil⟩
    rw [pathTo, if_pos hl]
    exact .pure _
  case neg =>
    obtain ⟨found, queue, hc, hf, hq⟩ := (Frontier.initial t).exploreFrom (some location)
    have hm : location ∈ t.seen found ↔ location ∈ found.map (·.target) := by
      simp [seen, Ne.symm hl]
    refine ⟨if location ∈ found.map (·.target) then some (pathBack found location) else none, ?_, ?_⟩
    · rw [pathTo, if_neg hl]
      exact hc.bind <| .pure _
    · split
      case isTrue hs => exact .found <| hf.shortest <| hm.mpr hs
      case isFalse hs =>
        refine .missing fun hr => hs ?_
        cases hq
        case inl hq =>
          subst hq
          exact hm.mp <| hf.mem_seen_of_reaches hr
        case inr hq =>
          obtain ⟨e, he, hg⟩ := hq
          exact List.mem_map.mpr ⟨e, he, Option.some.inj hg⟩

-- If nobody asks it to stop, the search for a location comes to a path if and only if there is a way
-- there. It then is one with as few edges as possible, and it has none if the location is the initial one.
theorem shortest_path (t : Template) (location : String) :
    ∃ path?, ((t.pathTo location).perform .never).ending = .value (.ok path?) ∧
      (path?.isSome ↔ t.Reaches location) ∧
      ∀ path, path? = some path →
        t.Shortest path location ∧ (path = [] ↔ location = t.init) := by
  have ⟨path?, hc, hs⟩ := t.pathTo_sought location
  refine ⟨path?, hc.ending, hs.isSome_iff, ?_⟩
  intro path hp
  subst hp
  cases hs
  case found h => exact ⟨h, h.eq_nil_iff⟩

end ModelAudit.Template

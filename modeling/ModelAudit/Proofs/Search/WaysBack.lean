import ModelAudit.Proofs.Search.Departures

namespace ModelAudit.Template

open Activity

-- The edge by which a search came to a location.
def parent? (parents : List Edge) (location : String) : Option Edge :=
  parents.find? (·.target = location)

-- The way back from one location to another, along the edges by which the search came there.
inductive Retraces (parents : List Edge) : String → List Edge → String → Prop
  | here {l} : Retraces parents l [] l
  | back {l l' e way} (he : parent? parents l = some e) (h : Retraces parents e.source way l') :
    Retraces parents l (e :: way) l'

-- The edges that had been found when the search came to a location. The others that leave the same location as the
-- latest of them do not count, since the search ends there.
def foundUntil (found : List Edge) (location : String) : List Edge :=
  found.dropWhile (·.target ≠ location)

-- The way back from a location comes to an end, and it does so where the search began. No location lies on it
-- twice.
structure Returns (t : Template) (parents : List Edge) (location : String) (path : List Edge) : Prop where
  origin   : parent? parents t.init = none
  grounded : WellFounded fun l' l => ∃ e, parent? parents l = some e ∧ e.source = l'
  distinct : ∀ way l, Retraces parents location way l → (location :: way.map (·.source)).Nodup
  stops    : ∀ way l, Retraces parents location way l → (parent? parents l = none ↔ l = t.init)
  whole    : Retraces parents location path.reverse t.init
  simple   : (t.init :: path.map (·.target)).Nodup

-- What a search for one location comes to, together with the way back from there.
inductive Seeks (t : Template) (location : String) (course : List Moment) :
    Except AuditError (Option (List Edge)) → Prop
  | there (hl : location = t.init) (hc : course = []) (hr : t.Returns [] location []) :
    Seeks t location course (.ok <| some [])
  | stopped {left} (h : t.Departs (some location) course left none) (hs : .looked true ∈ course) :
    Seeks t location course (.error .cancelled)
  | missing {left found} (h : t.Departs (some location) course left (some found))
    (ho : parent? found t.init = none) (hl : parent? found location = none) :
    Seeks t location course (.ok none)
  | found {left found path} (h : t.Departs (some location) course left (some found))
    (hr : t.Returns (foundUntil found location) location path) :
    Seeks t location course (.ok <| some path)

variable {t : Template} {found : List Edge} {e : Edge} {l l' location : String} {way : List Edge}

theorem target_of_parent? (h : parent? found l = some e) : e.target = l := by
  rw [parent?] at h
  simpa using List.find?_some h

theorem mem_of_parent? (h : parent? found l = some e) : e ∈ found :=
  List.mem_of_find?_eq_some h

theorem parent?_eq_none : parent? found l = none ↔ l ∉ found.map (·.target) := by
  simp [parent?]

theorem Retraces.locations (h : Retraces found l way l') :
    (l :: way.map (·.source)).reverse = l' :: way.reverse.map (·.target) := by
  induction h
  case here => rfl
  case back e way he _ hi =>
    rw [List.map_cons, List.reverse_cons, hi, List.reverse_cons, List.map_append, List.cons_append,
      List.map_singleton, target_of_parent? he]

theorem foundUntil_suffix (found : List Edge) (location : String) : foundUntil found location <:+ found :=
  List.dropWhile_suffix _

theorem pathBack_foundUntil (found : List Edge) (location : String) :
    pathBack (foundUntil found location) location = pathBack found location := by
  induction found
  case nil => rfl
  case cons e found hi =>
    by_cases ht : e.target = location
    case pos => simp [foundUntil, ht]
    case neg => simpa [foundUntil, ht, pathBack] using hi

theorem mem_foundUntil (h : location ∈ found.map (·.target)) :
    location ∈ (foundUntil found location).map (·.target) := by
  induction found
  case nil => cases h
  case cons e found hi =>
    by_cases ht : e.target = location
    case pos => simp [foundUntil, ht]
    case neg =>
      have hm := (List.mem_cons.mp h).resolve_left <| Ne.symm ht
      simpa [foundUntil, ht] using hi hm

namespace Grown

theorem of_suffix {parents : List Edge} (h : t.Grown found) (hs : parents <:+ found) : t.Grown parents := by
  obtain ⟨later, rfl⟩ := hs
  induction later
  case nil => exact h
  case cons hi =>
    cases h
    exact hi ‹_›

variable (h : t.Grown found)

include h

theorem parent?_init : parent? found t.init = none :=
  parent?_eq_none.mpr (List.nodup_cons.mp h.nodup_seen).left

theorem pathBack_parent (he : parent? found l = some e) :
    pathBack found l = pathBack found e.source ++ [e] :=
  target_of_parent? he ▸ h.pathBack_target <| mem_of_parent? he

theorem depth_parent (he : parent? found l = some e) : depth found l = depth found e.source + 1 := by
  rw [depth, h.pathBack_parent he, List.length_append, List.length_singleton, depth]

theorem source_mem_seen_of_parent (he : parent? found l = some e) : e.source ∈ t.seen found :=
  h.source_mem_seen <| mem_of_parent? he

theorem parent?_eq_none_iff (hl : l ∈ t.seen found) : parent? found l = none ↔ l = t.init := by
  constructor
  case mp =>
    exact fun hn => (List.mem_cons.mp hl).resolve_right <| parent?_eq_none.mp hn
  case mpr =>
    rintro rfl
    exact h.parent?_init

theorem mem_seen_of_retraces (hw : Retraces found l way l') (hl : l ∈ t.seen found) : l' ∈ t.seen found := by
  induction hw
  case here => exact hl
  case back he _ hi => exact hi <| h.source_mem_seen_of_parent he

-- Along the way back the distance gets smaller and smaller.
theorem descends (hw : Retraces found l way l') :
    (l :: way.map (·.source)).Pairwise fun x y => depth found y < depth found x := by
  induction hw
  case here => exact List.pairwise_singleton ..
  case back l _ e way he _ hi =>
    have hd : depth found e.source < depth found l := h.depth_parent he ▸ Nat.lt_succ_self _
    refine .cons (fun x hx => ?_) hi
    cases List.mem_cons.mp hx
    case inl hx => exact hx ▸ hd
    case inr hx => exact Nat.lt_trans (List.rel_of_pairwise_cons hi hx) hd

theorem nodup_of_retraces (hw : Retraces found l way l') : (l :: way.map (·.source)).Nodup :=
  (h.descends hw).imp fun hlt he => Nat.ne_of_gt hlt <| congrArg _ he

theorem wellFounded_parent : WellFounded fun l' l => ∃ e, parent? found l = some e ∧ e.source = l' := by
  refine Subrelation.wf ?_ (measure (depth found)).wf
  rintro _ l ⟨e, he, rfl⟩
  exact Nat.lt_of_lt_of_eq (Nat.lt_succ_self _) (h.depth_parent he).symm

theorem retraces_pathBack (hl : l ∈ t.seen found) : Retraces found l (pathBack found l).reverse t.init := by
  induction l using h.wellFounded_parent.induction
  case h l hi =>
    cases hp : parent? found l
    case none =>
      cases (h.parent?_eq_none_iff hl).mp hp
      rw [h.pathBack_init]
      exact .here
    case some e =>
      have hr := hi e.source ⟨e, hp, rfl⟩ <| h.source_mem_seen_of_parent hp
      rw [h.pathBack_parent hp, List.reverse_append]
      exact .back hp hr

theorem returns (hl : l ∈ t.seen found) : t.Returns found l (pathBack found l) where
  origin   := h.parent?_init
  grounded := h.wellFounded_parent
  distinct := fun _ _ hw => h.nodup_of_retraces hw
  stops    := fun _ _ hw => h.parent?_eq_none_iff <| h.mem_seen_of_retraces hw hl
  whole    := h.retraces_pathBack hl
  simple   := by
    have hw := h.retraces_pathBack hl
    have hn := List.nodup_reverse.mpr <| h.nodup_of_retraces hw
    rwa [hw.locations, List.reverse_reverse] at hn

end Grown

theorem pathTo_seeks (t : Template) (location : String) (timing : Timing) :
    ∃ r, ((t.pathTo location).perform timing).ending = .value r ∧
      t.Seeks location ((t.pathTo location).course timing) r := by
  by_cases hl : t.init = location
  case pos =>
    rw [pathTo, if_pos hl]
    exact ⟨_, rfl, .there hl.symm rfl <| hl ▸ Grown.nil.returns init_mem_seen⟩
  case neg =>
    obtain ⟨left, result, hd, he⟩ := t.exists_departs (some location) timing
    rw [pathTo, if_neg hl]
    have hc := Checking.courseFrom_bind_pure (t.explore (some location)) (fun found =>
      if location ∈ found.map (·.target) then some (pathBack found location) else none) timing {}
    refine ⟨_, Checking.performFrom_bind_pure he _, ?_⟩
    rw [course, hc]
    cases result
    case none => exact .stopped hd <| hd.tour.stopped_iff.mpr rfl
    case some found =>
      show t.Seeks location _ (.ok <| if location ∈ found.map (·.target) then _ else _)
      split
      case isTrue hm =>
        have hs := foundUntil_suffix found location
        have hr := hd.grown.of_suffix hs |>.returns <| List.mem_cons_of_mem _ <| mem_foundUntil hm
        rw [pathBack_foundUntil] at hr
        exact .found hd hr
      case isFalse hm => exact .missing hd hd.grown.parent?_init <| parent?_eq_none.mpr hm

-- Whenever the flag is raised, the searches end, and so does the way back.
theorem traversals_end (t : Template) :
    (∃ left found, t.Departs none (t.reachable.course .never) left (some found) ∧ t.Closure left ∧
      t.reachable.course .never = left.map fun _ => .looked false) ∧
    ∀ timing,
      (∃ r, (t.reachable.perform timing).ending = .value r ∧ t.Covers (t.reachable.course timing) r) ∧
      ∀ location, ∃ r, ((t.pathTo location).perform timing).ending = .value r ∧
        t.Seeks location ((t.pathTo location).course timing) r := by
  refine ⟨?_, fun timing => ⟨t.reachable_covers timing, fun location => t.pathTo_seeks location timing⟩⟩
  have ⟨_, hr, _⟩ := t.reachable_comesTo_closure
  have ⟨_, he, hc⟩ := t.reachable_covers .never
  cases hr.ending.symm.trans he
  cases hc with
  | complete hd hl hc _ => exact ⟨_, _, hd, hl, hc⟩

end ModelAudit.Template

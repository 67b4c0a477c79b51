import ModelAudit.Proofs.Check.Cancellation
import ModelAudit.Proofs.Search.ShortestPaths

namespace ModelAudit.Template

open Activity

-- The locations that can be reached, each of them once.
structure Closure (t : Template) (reached : List String) : Prop where
  nodup   : reached.Nodup
  mem_iff : ∀ location, location ∈ reached ↔ t.Reaches location

variable {t t' : Template} {found path : List Edge} {l l' location : String}

theorem Chain.mono (he : t.edges ⊆ t'.edges) (h : t.Chain l path l') : t'.Chain l path l' := by
  induction h
  case nil => exact .nil
  case cons hd hs _ hi => exact .cons (he hd) hs hi

theorem Reaches.mono (hi : t'.init = t.init) (he : t.edges ⊆ t'.edges) (h : t.Reaches location) :
    t'.Reaches location :=
  h.imp fun _ hc => hi ▸ hc.mono he

theorem Grown.nodup_seen (h : t.Grown found) : (t.seen found).Nodup := by
  induction h
  case nil => exact List.pairwise_singleton ..
  case cons e found _ _ _ ht hi =>
    have hp : (t.seen (e :: found)).Perm (e.target :: t.seen found) := .swap ..
    exact hp.nodup_iff.mpr <| List.nodup_cons.mpr ⟨ht, hi⟩

theorem Frontier.closure (h : t.Frontier found []) : t.Closure (t.seen found) where
  nodup   := h.grown.nodup_seen
  mem_iff := fun _ => ⟨fun hl => ⟨_, h.grown.chain_pathBack hl⟩, h.mem_seen_of_reaches⟩

theorem reachable_comesTo_closure (t : Template) :
    ∃ reached, t.reachable.ComesTo (.ok reached) ∧ t.Closure reached := by
  obtain ⟨found, queue, hc, hf, hq⟩ := (Frontier.initial t).exploreFrom none
  refine ⟨t.seen found, hc.bind <| .pure _, ?_⟩
  -- no edge leads to a goal where there is none
  have hq : queue = [] := hq.resolve_right fun ⟨_, _, hg⟩ => Option.some_ne_none _ hg
  subst hq
  exact hf.closure

-- What the search comes to if nobody asks it to stop.
def reached (t : Template) : List String :=
  match (t.reachable.perform .never).ending with
  | .value (.ok reached) => reached
  | _ => []

theorem closure_reached (t : Template) : t.Closure t.reached := by
  have ⟨_, hc, hr⟩ := t.reachable_comesTo_closure
  rwa [reached, hc.ending]

instance (t : Template) (location : String) : Decidable (t.Reaches location) :=
  decidable_of_iff (location ∈ t.reached) <| t.closure_reached.mem_iff location

-- The first thing that the search does is to look whether it was asked to stop.
theorem looked_mem_course_reachable {timing : Timing} (h : timing 0 0 = true) :
    .looked true ∈ t.reachable.course timing := by
  have hs : sees timing {} = true := by simp [sees, h]
  rw [reachable, explore, exploreFrom]
  change Moment.looked true ∈ .looked (sees timing {}) :: _
  rw [hs]
  exact List.mem_cons_self

-- Whenever the flag is raised, the search comes to the locations that can be reached if no look shows it, and
-- otherwise to the cancellation error.
theorem reachable_closure (t : Template) :
    ∃ reached, t.Closure reached ∧ (t.reachable.perform .never).ending = .value (.ok reached) ∧
      ∀ timing,
        (.looked true ∉ t.reachable.course timing →
          (t.reachable.perform timing).ending = .value (.ok reached)) ∧
        (.looked true ∈ t.reachable.course timing →
          (t.reachable.perform timing).ending = .value (.error .cancelled)) ∧
        (timing 0 0 = true → (t.reachable.perform timing).ending = .value (.error .cancelled)) := by
  have ⟨reached, hc, hr⟩ := t.reachable_comesTo_closure
  refine ⟨reached, hr, hc.ending, fun timing => ?_⟩
  cases t.reachable_heedful.undisturbed_or_cut (p := {}) rfl timing
  case inl hu =>
    have ⟨hn, he⟩ := hu
    refine ⟨fun _ => ?_, fun hm => absurd hm hn, fun h => absurd (looked_mem_course_reachable h) hn⟩
    exact (congrArg Performance.ending he).trans hc.ending
  case inr hu =>
    have ⟨hc, he⟩ := hu
    exact ⟨fun hn => absurd hc.mem hn, fun _ => he, fun _ => he⟩

end ModelAudit.Template

import ModelAudit.Document.Basic
import ModelAudit.Activity.Basic

namespace ModelAudit.Template

def seen (t : Template) (found : List Edge) : List String :=
  t.init :: found.map (·.target)

-- Of several edges to one location the first is taken.
def fresh (seen : List String) : List Edge → List Edge
  | [] => []
  | e :: es => if e.target ∈ seen then fresh seen es else e :: fresh (e.target :: seen) es

def unseen (t : Template) (seen : List String) : Nat :=
  t.edges.countP fun e => e.target ∉ seen

theorem fresh_sublist (seen : List String) (es : List Edge) : (fresh seen es).Sublist es := by
  induction es generalizing seen with
  | nil => exact .slnil
  | cons e es ih =>
    unfold fresh
    split
    · exact (ih seen).cons e
    · exact (ih _).cons_cons e

theorem target_not_mem_of_mem_fresh {seen : List String} {es : List Edge} {e : Edge}
    (h : e ∈ fresh seen es) : e.target ∉ seen := by
  induction es generalizing seen with
  | nil => simp [fresh] at h
  | cons d ds ih =>
    unfold fresh at h
    split at h
    · exact ih h
    · rcases List.mem_cons.1 h with rfl | h
      · assumption
      · exact fun hs => ih h (List.mem_cons_of_mem _ hs)

theorem unseen_fresh_add_length_le (t : Template) (seen : List String) (location : String) :
    t.unseen (((fresh seen (t.outgoing location)).map (·.target)).reverse ++ seen) +
      (fresh seen (t.outgoing location)).length ≤ t.unseen seen := by
  generalize hnew : fresh seen (t.outgoing location) = new
  have hsub : new.Sublist t.edges := hnew ▸ (fresh_sublist _ _).trans List.filter_sublist
  have hout : ∀ e ∈ new, e.target ∉ seen := fun e he => target_not_mem_of_mem_fresh (hnew ▸ he)
  -- the new edges are among those that were not seen before and are seen now
  have hle : new.length ≤
      t.edges.countP fun e => e.target ∉ seen ∧ e.target ∈ new.map (·.target) := by
    have hcount := hsub.countP_le (p := fun e => e.target ∉ seen ∧ e.target ∈ new.map (·.target))
    rwa [List.countP_eq_length.2] at hcount
    intro e he
    simpa using ⟨hout e he, ⟨e, he, rfl⟩⟩
  have hsplit : ∀ es : List Edge,
      (es.countP fun e => e.target ∉ (new.map (·.target)).reverse ++ seen) +
        (es.countP fun e => e.target ∉ seen ∧ e.target ∈ new.map (·.target)) =
      es.countP fun e => e.target ∉ seen := by
    intro es
    induction es with
    | nil => rfl
    | cons e es ih =>
      simp only [List.countP_cons, List.mem_append, List.mem_reverse] at ih ⊢
      by_cases hs : e.target ∈ seen <;> by_cases hn : e.target ∈ new.map (·.target) <;>
        simp only [hs, hn, or_true, or_false, not_true_eq_false, not_false_eq_true, and_true,
          and_false, decide_true, decide_false, if_true, Bool.false_eq_true, if_false] <;> omega
  have := hsplit t.edges
  simp only [unseen]
  omega

theorem unseen_seen_append (t : Template) (new found : List Edge) :
    t.unseen (t.seen (new.reverse ++ found)) =
      t.unseen ((new.map (·.target)).reverse ++ t.seen found) := by
  refine List.countP_congr fun e _ => ?_
  simp [seen, and_left_comm]

-- Goes on with a search that came to its locations by the edges `found`, the latest first, and has yet
-- to leave those in the queue. It ends early when it comes to the goal.
def exploreFrom (t : Template) (goal : Option String) (found : List Edge) :
    List String → Checking (List Edge)
  | [] => pure found
  | location :: queue =>
    Activity.poll fun cancelled =>
      if cancelled then .done (.error .cancelled)
      else
        let new := fresh (t.seen found) (t.outgoing location)
        if new.any fun e => some e.target == goal then .done (.ok (new.reverse ++ found))
        else exploreFrom t goal (new.reverse ++ found) (queue ++ new.map (·.target))
termination_by queue => t.unseen (t.seen found) + queue.length
decreasing_by
  have h := t.unseen_fresh_add_length_le (t.seen found) location
  rw [← unseen_seen_append] at h
  simp only [List.length_append, List.length_map, List.length_cons]
  omega

def explore (t : Template) (goal : Option String) : Checking (List Edge) :=
  t.exploreFrom goal [] [t.init]

def reachable (t : Template) : Checking (List String) := do
  return t.seen (← t.explore none)

def pathBack : List Edge → String → List Edge
  | [], _ => []
  | e :: found, location =>
    if e.target = location then pathBack found e.source ++ [e] else pathBack found location

def pathTo (t : Template) (location : String) : Checking (Option (List Edge)) :=
  if t.init = location then pure (some [])
  else do
    let found ← t.explore (some location)
    return if location ∈ found.map (·.target) then some (pathBack found location) else none

end ModelAudit.Template

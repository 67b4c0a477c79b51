import ModelAudit.Registry.Action

namespace ModelAudit

structure Registry where
  next : Nat := 1
  live : List (Token × Action) := []
deriving DecidableEq, Repr

namespace Registry

def register (r : Registry) (a : Action) : Token × Registry :=
  (⟨r.next⟩, { next := r.next + 1, live := r.live ++ [(⟨r.next⟩, a)] })

def find? (r : Registry) (t : Token) : Option Action :=
  (r.live.find? (·.1 == t)).map (·.2)

def Contains (r : Registry) (t : Token) : Prop :=
  t ∈ r.live.map (·.1)

instance (r : Registry) (t : Token) : Decidable (r.Contains t) :=
  inferInstanceAs (Decidable (_ ∈ _))

def clear (r : Registry) (t : Token) : Registry :=
  { r with live := r.live.filter (·.1 != t) }

-- The token is cleared before the action runs, so that the action finds its own token stale.
def take (r : Registry) (t : Token) : Option (Action × Registry) :=
  (r.find? t).map fun a => (a, r.clear t)

def revoke (r : Registry) : List Token → Nat × Registry
  | [] => (0, r)
  | t :: ts =>
    let (n, r') := (r.clear t).revoke ts
    (if r.Contains t then n + 1 else n, r')

def size (r : Registry) : Nat :=
  r.live.length

def weight (r : Registry) : Nat :=
  Action.totalSize (r.live.map (·.2))

theorem weight_register (r : Registry) (a : Action) :
    (r.register a).2.weight = r.weight + a.size := by
  simp [register, weight, Action.totalSize_append, Action.totalSize]

theorem weight_clear_le (r : Registry) (t : Token) : (r.clear t).weight ≤ r.weight := by
  simp only [clear, weight]
  induction r.live with
  | nil => simp
  | cons m ms ih =>
    by_cases h : (m.1 != t) = true <;> simp only [h, List.filter_cons, List.map_cons,
      Action.totalSize, if_true, if_false, Bool.false_eq_true] <;> omega

theorem weight_revoke_le (r : Registry) (ts : List Token) : (r.revoke ts).2.weight ≤ r.weight := by
  induction ts generalizing r with
  | nil => simp [revoke]
  | cons t ts ih => exact Nat.le_trans (ih (r.clear t)) (r.weight_clear_le t)

theorem weight_take {r r' : Registry} {t : Token} {a : Action} (h : r.take t = some (a, r')) :
    r'.weight + a.size ≤ r.weight := by
  simp only [take, find?, Option.map_map, Option.map_eq_some_iff, Function.comp_apply,
    Prod.mk.injEq] at h
  obtain ⟨m, hm, rfl, rfl⟩ := h
  simp only [clear, weight]
  generalize r.live = live at hm ⊢
  induction live with
  | nil => simp at hm
  | cons n ns ih =>
    by_cases hn : (n.1 == t) = true
    · have : n = m := by simpa [hn] using hm
      subst this
      have hle := weight_clear_le ⟨0, ns⟩ t
      simp only [clear, weight] at hle
      have hb : (n.1 != t) = false := by simp [bne, hn]
      simp only [List.filter_cons, hb, List.map_cons, Action.totalSize]
      simp only [Bool.false_eq_true, if_false]
      omega
    · have hm' : ns.find? (·.1 == t) = some m := by simpa [hn] using hm
      have hb : (n.1 != t) = true := by simpa [bne] using hn
      simp only [List.filter_cons, hb, List.map_cons, Action.totalSize, if_true]
      have := ih hm'
      omega

theorem contains_iff_find? {r : Registry} {t : Token} :
    r.Contains t ↔ (r.find? t).isSome = true := by
  simp only [Contains, find?, Option.isSome_map, List.find?_isSome, List.mem_map, beq_iff_eq]

theorem not_contains_clear (r : Registry) (t : Token) : ¬ (r.clear t).Contains t := by
  simp [Contains, clear]

theorem contains_clear_iff {r : Registry} {t u : Token} :
    (r.clear t).Contains u ↔ r.Contains u ∧ u ≠ t := by
  simp only [Contains, clear, List.mem_map, List.mem_filter, bne_iff_ne]
  constructor
  · rintro ⟨m, ⟨hm, hne⟩, rfl⟩
    exact ⟨⟨m, hm, rfl⟩, hne⟩
  · rintro ⟨⟨m, hm, rfl⟩, hne⟩
    exact ⟨m, ⟨hm, hne⟩, rfl⟩

end Registry

end ModelAudit

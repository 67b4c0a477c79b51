import Mathlib.Data.List.Sort
import ModelAudit.Json.Value

namespace ModelAudit.Json

variable {ms ns : List (String × Json)} {name : String} {j : Json}

namespace Ascending

theorem lookup_eq_some_iff (h : Ascending ms) : lookup name ms = some j ↔ (name, j) ∈ ms := by
  induction ms
  case nil => simp [lookup]
  case cons m ms hi =>
    obtain ⟨n, k⟩ := m
    obtain ⟨hlt, hs⟩ := List.pairwise_cons.mp h
    by_cases he : n = name
    case pos =>
      subst he
      have hn : (n, j) ∉ ms := fun hm => String.lt_irrefl n <| hlt _ hm
      simp [lookup, hn, eq_comm]
    case neg =>
      have hl : lookup name ((n, k) :: ms) = lookup name ms := by simp [lookup, he]
      have hp : (name, j) ≠ (n, k) := fun hp => he (congrArg Prod.fst hp).symm
      simp [hl, hi hs, hp]

theorem eq_of_lookup_eq (hm : Ascending ms) (hn : Ascending ns)
    (h : ∀ name, lookup name ms = lookup name ns) : ms = ns := by
  have : Std.Irrefl fun m n : String × Json => m.1 < n.1 := ⟨fun m => String.lt_irrefl m.1⟩
  have : Std.Antisymm fun m n : String × Json => m.1 < n.1 :=
    ⟨fun _ _ hl hg => absurd hg <| String.lt_asymm hl⟩
  refine List.Pairwise.eq_of_mem_iff hm hn fun ⟨name, j⟩ => ?_
  rw [← hm.lookup_eq_some_iff, h name, hn.lookup_eq_some_iff]

theorem filter (h : Ascending ms) (p : String × Json → Bool) : Ascending (ms.filter p) :=
  List.Pairwise.sublist List.filter_sublist h

theorem lookup_filter (h : Ascending ms) (p : String × Json → Bool) (name : String) :
    lookup name (ms.filter p) = (lookup name ms).filter fun j => p (name, j) := by
  ext j
  rw [(h.filter p).lookup_eq_some_iff, List.mem_filter, Option.filter_eq_some_iff,
    h.lookup_eq_some_iff]

end Ascending

-- The members put in one after the other.
def insertAll (base ms : List (String × Json)) : List (String × Json) :=
  ms.foldl (fun ns m => insert m.1 m.2 ns) base

theorem Ascending.insertAll (h : Ascending ns) (ms : List (String × Json)) :
    Ascending (insertAll ns ms) := by
  induction ms generalizing ns
  case nil => exact h
  case cons m ms hi => exact hi <| h.insert m.1 m.2

theorem mem_insertAll {m : String × Json} (h : m ∈ insertAll ns ms) : m ∈ ms ∨ m ∈ ns := by
  induction ms generalizing ns
  case nil => exact .inr h
  case cons n ms hi =>
    rcases hi h with h | h
    · exact .inl <| .tail n h
    · rcases mem_insert h with rfl | h
      · exact .inl <| .head ms
      · exact .inr h

-- What is put in stands before what was there.
theorem lookup_insertAll (h : Ascending ms) (ns : List (String × Json)) (name : String) :
    lookup name (insertAll ns ms) = (lookup name ms).or (lookup name ns) := by
  induction ms generalizing ns
  case nil => rfl
  case cons m ms hi =>
    have ⟨hlt, hs⟩ := List.pairwise_cons.mp h
    refine (hi hs _).trans ?_
    by_cases he : name = m.1
    case pos =>
      have hn : lookup name ms = none := by
        rw [Option.eq_none_iff_forall_ne_some]
        intro j hj
        have hm := hlt (name, j) <| Ascending.lookup_eq_some_iff hs |>.mp hj
        exact String.lt_irrefl name <| by rwa [← he] at hm
      rw [hn, he, lookup_insert_self]
      simp [lookup]
    case neg =>
      have hl : lookup name (m :: ms) = lookup name ms := by simp [lookup, Ne.symm he]
      rw [lookup_insert_of_ne he, hl]

end ModelAudit.Json

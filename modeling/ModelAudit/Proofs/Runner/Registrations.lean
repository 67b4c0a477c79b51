import ModelAudit.Runner.Basic
import Mathlib.Data.List.Induction

namespace ModelAudit.Catalog

-- The check was registered at this place of the history, and no later one has its name.
structure Latest (history : List Check) (name : String) (i : Nat) (check : Check) : Prop where
  registered : history[i]? = some check
  named      : check.shortName = name
  unreplaced : ∀ j check', i < j → history[j]? = some check' → check'.shortName ≠ name

-- The checks of the catalog with the places of their registrations, which come in order.
structure Lists (c : Catalog) (history : List Check) (places : List (Nat × Check)) : Prop where
  checks    : c.checks = places.map (·.2)
  ascending : places.Pairwise fun p q => p.1 < q.1
  mem_iff   : ∀ i check, (i, check) ∈ places ↔ Latest history check.shortName i check

variable {c c' : Catalog} {history : List Check} {places : List (Nat × Check)} {check check' : Check}
  {name : String} {i j : Nat} {d : Document}

namespace Latest

theorem lt_length (h : Latest history name i check) : i < history.length :=
  have ⟨hi, _⟩ := List.getElem?_eq_some_iff.mp h.registered
  hi

theorem mem (h : Latest history name i check) : check ∈ history :=
  List.mem_of_getElem? h.registered

theorem unique (h : Latest history name i check) (h' : Latest history name j check') :
    i = j ∧ check = check' := by
  have hij : i = j := by
    by_contra hn
    cases Nat.lt_or_gt_of_ne hn
    case inl hl => exact h.unreplaced j check' hl h'.registered h'.named
    case inr hl => exact h'.unreplaced i check hl h.registered h.named
  subst hij
  exact ⟨rfl, Option.some.inj <| h.registered.symm.trans h'.registered⟩

theorem concat_self (history : List Check) (check : Check) :
    Latest (history ++ [check]) check.shortName history.length check where
  registered := List.getElem?_concat_length
  named      := rfl
  unreplaced := fun j check' hj hc => by
    have hl : j < (history ++ [check]).length := (List.getElem?_eq_some_iff.mp hc).choose
    rw [List.length_append, List.length_singleton] at hl
    omega

theorem concat_of_ne (h : Latest history name i check) (hn : check'.shortName ≠ name) :
    Latest (history ++ [check']) name i check where
  registered := List.getElem?_append_left h.lt_length ▸ h.registered
  named      := h.named
  unreplaced := fun j check'' hj hc => by
    by_cases hl : j < history.length
    case pos => exact h.unreplaced j check'' hj <| List.getElem?_append_left hl ▸ hc
    case neg =>
      rw [List.getElem?_append_right <| Nat.le_of_not_lt hl] at hc
      have hm := List.mem_singleton.mp <| List.mem_of_getElem? hc
      exact hm ▸ hn

theorem of_concat (h : Latest (history ++ [check']) name i check) :
    (Latest history name i check ∧ check'.shortName ≠ name) ∨ (i = history.length ∧ check = check') := by
  by_cases hl : i < history.length
  case pos =>
    refine .inl ⟨⟨List.getElem?_append_left hl ▸ h.registered, h.named, fun j check'' hj hc => ?_⟩, ?_⟩
    · have hj' : j < history.length := (List.getElem?_eq_some_iff.mp hc).choose
      exact h.unreplaced j check'' hj <| (List.getElem?_append_left hj').trans hc
    · exact h.unreplaced _ _ hl List.getElem?_concat_length
  case neg =>
    have hi : i < (history ++ [check']).length := h.lt_length
    have hi : i = history.length := by
      rw [List.length_append, List.length_singleton] at hi
      omega
    subst hi
    exact .inr ⟨rfl, Option.some.inj <| h.registered.symm.trans List.getElem?_concat_length⟩

end Latest

namespace Lists

theorem empty : ({} : Catalog).Lists [] [] where
  checks    := rfl
  ascending := .nil
  mem_iff   := fun _ _ => ⟨nofun, fun h => absurd h.mem List.not_mem_nil⟩

-- The place of a check that is replaced goes with it.
theorem register (h : c.Lists history places) (check : Check) :
    (c.register check).Lists (history ++ [check])
      (places.filter (·.2.shortName != check.shortName) ++ [(history.length, check)]) where
  checks    := by
    rw [Catalog.register, h.checks, List.filter_map, List.map_append]
    rfl
  ascending := by
    refine List.pairwise_append.mpr ⟨h.ascending.filter _, List.pairwise_singleton .., ?_⟩
    intro p hp q hq
    have hp := (h.mem_iff p.1 p.2).mp (List.mem_filter.mp hp).left
    rw [List.mem_singleton.mp hq]
    exact hp.lt_length
  mem_iff   := fun i check' => by
    rw [List.mem_append, List.mem_filter, List.mem_singleton, h.mem_iff, bne_iff_ne, Prod.mk.injEq]
    constructor
    case mp =>
      rintro (⟨hl, hn⟩ | ⟨rfl, rfl⟩)
      · exact hl.concat_of_ne hn.symm
      · exact .concat_self history check'
    case mpr => exact fun hl => hl.of_concat.imp_left <| And.imp_right Ne.symm

variable (h : c.Lists history places)

include h

theorem distinct : (c.checks.map (·.shortName)).Nodup := by
  rw [h.checks, List.map_map, List.Nodup, List.pairwise_map]
  refine h.ascending.imp_of_mem fun {p q} hp hq hlt hn => ?_
  have hp := (h.mem_iff p.1 p.2).mp hp
  have hq := (h.mem_iff q.1 q.2).mp hq
  have hn : p.2.shortName = q.2.shortName := hn
  exact Nat.ne_of_lt hlt (hp.unique <| hn ▸ hq).left

end Lists

example : (builtin.register Check.templateLocations).checks.map (·.shortName) =
    ["receivesyncs", "deadlock-locations", "template-locations"] := by
  decide

end ModelAudit.Catalog

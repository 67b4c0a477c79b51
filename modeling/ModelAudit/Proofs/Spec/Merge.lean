import ModelAudit.Proofs.Json.Members
import ModelAudit.Proofs.Json.Zeros
import ModelAudit.Spec.Canonical

namespace ModelAudit

open Json

variable {globals own fields ms : List (String × Json)} {r : Request} {check name : String} {j : Json}
  {index : Nat} {raw : Json}

-- Whether a value is more than the global of that name says.
def departs (globals : List (String × Json)) (name : String) (j : Json) : Bool :=
  match lookup name globals with
  | some value => !value.same j
  | none => true

namespace Request

theorem lookup_overrides (h : Ascending r.parameters) (name : String) :
    lookup name (r.overrides globals) = (lookup name r.parameters).filter (departs globals name) :=
  h.lookup_filter (fun m => departs globals m.1 m.2) name

theorem overrides_ascending (h : Ascending r.parameters) : Ascending (r.overrides globals) :=
  h.filter _

variable (ho : Ascending own) (hr : r.parameters = insertAll globals own)

include ho hr

-- A parameter that is left out is the global itself, and a global that is none is left out.
theorem lookup_overrides_of_own (hg : Ascending globals) (name : String) :
    lookup name (r.overrides globals) = (lookup name own).filter (departs globals name) := by
  rw [lookup_overrides (hr ▸ hg.insertAll own), hr, lookup_insertAll ho]
  unfold departs
  cases lookup name own
  case some => rfl
  case none => cases lookup name globals <;> simp [same_self]

-- What merging gives back for a single name.
theorem lookup_restored (hg : Ascending globals) (name : String) :
    (lookup name (insertAll globals (r.overrides globals))).map plainZeros =
      (lookup name r.parameters).map plainZeros := by
  have hp : Ascending r.parameters := hr ▸ hg.insertAll own
  rw [lookup_insertAll <| overrides_ascending hp, lookup_overrides_of_own ho hr hg, hr, lookup_insertAll ho]
  unfold departs
  cases lookup name own <;> cases lookup name globals
  case some.some j k =>
    cases h : Json.same k j
    case false => simp [Option.filter, h]
    case true => simpa [Option.filter, h] using same_iff.mp h
  all_goals simp

theorem plainMembers_restored (hg : Ascending globals) :
    plainMembers (insertAll globals (r.overrides globals)) = plainMembers r.parameters := by
  refine Ascending.eq_of_lookup_eq (hg.insertAll _).plainMembers
    (hr ▸ (hg.insertAll own).plainMembers) fun name => ?_
  rw [lookup_plainMembers, lookup_plainMembers]
  exact lookup_restored ho hr hg name

-- What departs from the globals departs from them after it was merged in again, and nothing else does.
theorem overrides_restored (hg : Ascending globals) :
    overrides globals ⟨check, insertAll globals (r.overrides globals)⟩ = r.overrides globals := by
  have hp : Ascending r.parameters := hr ▸ hg.insertAll own
  have hs : Ascending (r.overrides globals) := overrides_ascending hp
  let q : Request := ⟨check, insertAll globals (r.overrides globals)⟩
  have hq : Ascending q.parameters := hg.insertAll _
  refine Ascending.eq_of_lookup_eq (overrides_ascending hq) hs fun name => ?_
  rw [lookup_overrides_of_own (r := q) hs rfl hg, lookup_overrides_of_own ho hr hg, Option.filter_filter]
  simp

end Request

theorem lookup_filter_ne (h : Ascending ms) (hn : name ≠ check) :
    lookup name (ms.filter (·.1 != check)) = lookup name ms := by
  rw [h.lookup_filter]
  cases lookup name ms <;> simp [hn]

theorem lookup_filter_self (h : Ascending ms) : lookup name (ms.filter (·.1 != name)) = none := by
  rw [h.lookup_filter]
  cases lookup name ms <;> simp

-- Taking a member out undoes putting it in, where there was none of that name.
theorem filter_insertAll (hm : Ascending ms) (hn : lookup name ms = none) :
    (insertAll [(name, j)] ms).filter (·.1 != name) = ms := by
  have hb : Ascending [(name, j)] := List.pairwise_singleton ..
  refine Ascending.eq_of_lookup_eq ((hb.insertAll ms).filter _) hm fun n => ?_
  by_cases he : n = name
  case pos => rw [he, lookup_filter_self <| hb.insertAll ms, hn]
  case neg =>
    rw [lookup_filter_ne (hb.insertAll ms) he, lookup_insertAll hm]
    simp [lookup, Ne.symm he]

theorem requestedType?_eq_some_iff : requestedType? fields = some check ↔ ∃ type,
    lookup "type" fields = some (.text type) ∧ ¬Text.IsBlankText type ∧ check = Text.trim type := by
  unfold requestedType?
  split
  case h_1 type h =>
    by_cases hb : Text.IsBlankText type <;> simp [h, hb, eq_comm]
  case h_2 h => exact ⟨nofun, fun ⟨type, ht, _⟩ => absurd ht <| h type⟩

theorem requestedType?_eq_some (h : requestedType? fields = some check) :
    ¬Text.IsBlankText check ∧ Text.trim check = check := by
  obtain ⟨type, -, hb, rfl⟩ := requestedType?_eq_some_iff.mp h
  exact ⟨mt Text.isBlankText_trim_iff.mp hb, Text.trim_trim type⟩

namespace Entry

-- An item is malformed and stays as it is, or it is an object that asks for a check.
theorem ofItem_cases (globals : List (String × Json)) (index : Nat) (raw : Json) :
    (∃ e, ofItem globals index raw = .malformed raw e) ∨
      ∃ fields check, raw = .object fields ∧ requestedType? fields = some check ∧
        ofItem globals index raw = .request ⟨check, mergeParameters globals fields⟩ := by
  unfold ofItem
  split
  case h_2 => exact .inl ⟨_, rfl⟩
  case h_1 fields =>
    split
    case h_1 check hc => exact .inr ⟨fields, check, rfl, hc, rfl⟩
    case h_2 => exact .inl ⟨_, rfl⟩

-- The request that an item makes is the one that is written for it, up to the signs of zeros.
theorem restored_request (hg : Ascending globals) (hf : Ascending fields)
    (hc : requestedType? fields = some check) :
    let r : Request := ⟨check, mergeParameters globals fields⟩
    ofItem globals index (r.toItem globals) =
      .request ⟨check, insertAll globals (r.overrides globals)⟩ := by
  intro r
  have ho : Ascending (fields.filter (·.1 != "type")) := hf.filter _
  have hs : Ascending (r.overrides globals) := Request.overrides_ascending <| hg.insertAll _
  have ht : lookup "type" (r.overrides globals) = none := by
    rw [Request.lookup_overrides_of_own ho rfl hg, lookup_filter_self hf]
    rfl
  have hq : requestedType? (insertAll [("type", .text check)] (r.overrides globals)) = some check := by
    have ⟨hb, hc⟩ := requestedType?_eq_some hc
    have hl : lookup "type" (insertAll [("type", .text check)] (r.overrides globals)) =
        some (.text check) := by
      rw [lookup_insertAll hs, ht]
      rfl
    simp only [requestedType?, hl, if_neg hb, hc]
  have hm : mergeParameters globals (insertAll [("type", .text check)] (r.overrides globals)) =
      insertAll globals (r.overrides globals) :=
    congrArg (insertAll globals) <| filter_insertAll hs ht
  show ofItem globals index (.object (insertAll [("type", .text check)] (r.overrides globals))) = _
  simp only [ofItem, hq, hm]

-- An item and what is written for it make the same entry, and the same is written for either.
theorem restored (hg : Ascending globals) (hr : ∀ fields, raw = .object fields → Ascending fields) :
    (ofItem globals index raw).same
        (ofItem globals index ((ofItem globals index raw).toItem globals)) = true ∧
      (ofItem globals index ((ofItem globals index raw).toItem globals)).toItem globals =
        (ofItem globals index raw).toItem globals := by
  rcases ofItem_cases globals index raw with ⟨_, he⟩ | ⟨fields, check, ho, hc, he⟩
  · rw [he]
    simp only [toItem, he]
    simp [same, same_self]
  · have hf := hr fields ho
    have hs : Ascending (fields.filter (·.1 != "type")) := hf.filter _
    let r : Request := ⟨check, mergeParameters globals fields⟩
    have hb : ofItem globals index (r.toItem globals) =
        .request ⟨check, insertAll globals (r.overrides globals)⟩ :=
      restored_request hg hf hc
    have hp := Request.plainMembers_restored (r := r) hs rfl hg
    have hw : Request.overrides globals ⟨check, insertAll globals (r.overrides globals)⟩ =
        r.overrides globals :=
      Request.overrides_restored hs rfl hg
    rw [he]
    simp only [toItem] at hb ⊢
    rw [hb]
    refine ⟨?_, ?_⟩
    · simp only [same, Request.same, beq_self_eq_true, Bool.true_and]
      exact sameMembers_iff.mpr hp.symm
    · simp only [Request.toItem]
      rw [hw]

end Entry

end ModelAudit

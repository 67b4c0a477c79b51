import ModelAudit.Proofs.Json.Values
import ModelAudit.Proofs.Spec.RoundTrip

namespace ModelAudit

open Json

variable {globals globals' ms : List (String × Json)} {name : String} {j : Json} {r r' : Request}
  {e e' : Entry} {es es' : List Entry} {s t : CheckSet} {a b : String}

theorem plainMembers_insertAll (base ms : List (String × Json)) :
    plainMembers (insertAll base ms) = insertAll (plainMembers base) (plainMembers ms) := by
  induction ms generalizing base
  case nil => rfl
  case cons m ms hi =>
    refine (hi _).trans ?_
    rw [insert_plainMembers]
    rfl

theorem departs_plainMembers (globals : List (String × Json)) (name : String) (j : Json) :
    departs (plainMembers globals) name (plainZeros j) = departs globals name j := by
  unfold departs
  rw [lookup_plainMembers]
  cases lookup name globals
  case none => rfl
  case some => simp [same_plainZeros]

namespace Request

-- The request without the minus signs in front of its zeros.
def plain (r : Request) : Request where
  check      := r.check
  parameters := plainMembers r.parameters

theorem same_iff_plain : r.same r' = true ↔ r.plain = r'.plain := by
  simp [same, plain, sameMembers_iff]

theorem plainMembers_overrides (globals : List (String × Json)) (r : Request) :
    plainMembers (r.overrides globals) = r.plain.overrides (plainMembers globals) := by
  change plainMembers (r.parameters.filter fun m => departs globals m.1 m.2) =
    (plainMembers r.parameters).filter fun m => departs (plainMembers globals) m.1 m.2
  rw [plainMembers_eq, plainMembers_eq r.parameters, List.filter_map]
  congr 2
  funext m
  exact (departs_plainMembers globals m.1 m.2).symm

theorem plainZeros_toItem (globals : List (String × Json)) (r : Request) :
    plainZeros (r.toItem globals) = r.plain.toItem (plainMembers globals) := by
  change plainZeros (.object (insertAll [("type", .text r.check)] (r.overrides globals))) = _
  rw [plainZeros, plainMembers_insertAll, plainMembers_overrides]
  rfl

end Request

theorem Entry.plainZeros_toItem (hg : plainMembers globals = plainMembers globals')
    (he : e.same e' = true) : plainZeros (e.toItem globals) = plainZeros (e'.toItem globals') := by
  cases e <;> cases e' <;> simp only [same, Bool.false_eq_true] at he
  case request.request =>
    simp only [toItem, Request.plainZeros_toItem, hg, Request.same_iff_plain.mp he]
  case malformed.malformed =>
    simp only [Bool.and_eq_true] at he
    exact Json.same_iff.mp he.1.1

theorem Entry.plainItems_map_toItem (hg : plainMembers globals = plainMembers globals')
    (he : Entry.sameAll es es' = true) :
    plainItems (es.map (toItem globals)) = plainItems (es'.map (toItem globals')) := by
  induction es generalizing es' <;> cases es'
  case nil.nil => rfl
  case cons.cons e es hi e' es' =>
    have ⟨he, hs⟩ : e.same e' = true ∧ sameAll es es' = true := by simpa [sameAll] using he
    simp [plainItems, plainZeros_toItem hg he, hi hs]
  all_goals cases he

namespace CheckSet

-- Sets that are the same have canonical forms that are the same.
theorem same_toJson (h : s.same t = true) : s.toJson.same t.toJson = true := by
  have ⟨hg, he⟩ : sameMembers s.globals t.globals = true ∧ Entry.sameAll s.entries t.entries = true := by
    simpa [same] using h
  have hg := sameMembers_iff.mp hg
  refine Json.same_iff.mpr ?_
  simp only [toJson, plainZeros, insert_plainMembers, hg, Entry.plainItems_map_toItem hg he]

theorem proper_of_parse (h : parse a = .ok s) : Proper maxDepth s.toJson := by
  have ⟨_, hp, hm⟩ := parse_eq_ok h
  exact toJson_proper hp hm

-- What is written for two sets that are the same differs exactly if the signs of their zeros do.
theorem write_eq_iff (ha : parse a = .ok s) (hb : parse b = .ok t) (h : s.same t = true) :
    s.write = t.write ↔ zeroSigns s.toJson = zeroSigns t.toJson := by
  rw [zeroSigns_eq_iff <| same_toJson h]
  exact ⟨compact_inj (proper_of_parse ha) (proper_of_parse hb), congrArg compact⟩

-- The digest tells sets that are the same apart by the signs of zeros and by nothing else.
theorem digest_of_same (ha : parse a = .ok s) (hb : parse b = .ok t) (h : s.same t = true) :
    (s.write = t.write ↔ zeroSigns s.toJson = zeroSigns t.toJson) ∧
      (zeroSigns s.toJson = zeroSigns t.toJson → s.digest = t.digest) := by
  have hw := write_eq_iff ha hb h
  exact ⟨hw, fun hs => congrArg Digest.ofText <| hw.mpr hs⟩

theorem exists_of_parse {p : CheckSet → CheckSet → Bool}
    (h : (parse a).toOption.any (fun s => (parse b).toOption.any (p s)) = true) :
    ∃ s t, parse a = .ok s ∧ parse b = .ok t ∧ p s t = true := by
  cases ha : parse a <;> cases hb : parse b <;> rw [ha, hb] at h
  case ok.ok s t => exact ⟨s, t, rfl, rfl, h⟩
  all_goals cases h

-- Blanks, the order of members and the way in which numbers are written do not matter.
theorem digest_of_respelled : ∃ s t,
    parse "\x7b\"b\": 2.0, \"x\": -0.0, \"checks\": []\x7d" = .ok s ∧
    parse "\x7b\"checks\":[],\"x\":-0e7,\n\"b\":20e-1\x7d" = .ok t ∧
    s.same t = true ∧ zeroSigns s.toJson = zeroSigns t.toJson ∧ s.write = t.write ∧ s.digest = t.digest := by
  have ⟨s, t, ha, hb, h⟩ := exists_of_parse
    (a := "\x7b\"b\": 2.0, \"x\": -0.0, \"checks\": []\x7d")
    (b := "\x7b\"checks\":[],\"x\":-0e7,\n\"b\":20e-1\x7d")
    (p := fun s t => s.same t && zeroSigns s.toJson == zeroSigns t.toJson) (by decide +kernel)
  have ⟨hs, hz⟩ : s.same t = true ∧ zeroSigns s.toJson = zeroSigns t.toJson := by simpa using h
  have ⟨hw, hd⟩ := digest_of_same ha hb hs
  exact ⟨s, t, ha, hb, hs, hz, hw.mpr hz, hd hz⟩

-- Zeros of opposite signs compare equal, and the digest tells them apart.
theorem digest_of_opposite_zeros : ∃ s t,
    parse "\x7b\"g\": 0.0, \"checks\": [\x7b\"type\": \"t\"\x7d]\x7d" = .ok s ∧
    parse "\x7b\"g\": -0.0, \"checks\": [\x7b\"type\": \"t\"\x7d]\x7d" = .ok t ∧
    s.same t = true ∧ s.digest ≠ t.digest := by
  have ⟨s, t, ha, hb, h⟩ := exists_of_parse
    (a := "\x7b\"g\": 0.0, \"checks\": [\x7b\"type\": \"t\"\x7d]\x7d")
    (b := "\x7b\"g\": -0.0, \"checks\": [\x7b\"type\": \"t\"\x7d]\x7d")
    (p := fun s t => s.same t && s.digest != t.digest) (by decide +kernel)
  exact ⟨s, t, ha, hb, by simpa using h⟩

end CheckSet

end ModelAudit

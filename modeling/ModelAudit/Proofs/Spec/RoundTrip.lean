import ModelAudit.Proofs.Json.Values
import ModelAudit.Proofs.Spec.Merge

namespace ModelAudit

open Json

variable {globals root fields : List (String × Json)} {d index : Nat} {raw : Json} {s : CheckSet}
  {text : String}

-- An item that is written has no more brackets in it than the one that was read.
theorem Entry.toItem_proper (hg : Ascending globals) (hr : Proper d raw) :
    Proper d ((ofItem globals index raw).toItem globals) := by
  rcases ofItem_cases globals index raw with ⟨_, he⟩ | ⟨fields, check, rfl, hc, he⟩
  · rwa [he]
  · rw [he]
    cases hr with | object hf hm =>
    have hs : Ascending (fields.filter (·.1 != "type")) := hf.filter _
    let r : Request := ⟨check, mergeParameters globals fields⟩
    have ho : Ascending (r.overrides globals) := Request.overrides_ascending <| hg.insertAll _
    refine .object (Ascending.insertAll (List.pairwise_singleton ..) _) fun m h => ?_
    rcases mem_insertAll h with h | h
    · have hl := ho.lookup_eq_some_iff.mpr h
      rw [Request.lookup_overrides_of_own hs rfl hg, Option.filter_eq_some_iff] at hl
      exact hm m <| List.mem_of_mem_filter <| hs.lookup_eq_some_iff.mp hl.1
    · rw [List.mem_singleton.mp h]
      exact .text check

namespace CheckSet

theorem map_mapIdx {α β γ : Type} (f : Nat → α → β) (g : β → γ) (as : List α) :
    (as.mapIdx f).map g = as.mapIdx fun i a => g (f i a) :=
  List.ext_getElem (by simp) (by simp)

-- A set has the members but one for its globals, and that one is the list of its items.
theorem ofMembers_eq_ok (h : ofMembers root = .ok s) :
    ∃ items, lookup "checks" root = some (.list items) ∧ s.globals = root.filter (·.1 != "checks") ∧
      s.entries = items.mapIdx (Entry.ofItem s.globals) := by
  unfold ofMembers at h
  split at h <;> cases h
  exact ⟨_, ‹_›, rfl, rfl⟩

theorem toJson_proper (hp : Proper d (.object root)) (h : ofMembers root = .ok s) :
    Proper d s.toJson := by
  have ⟨items, hl, hs, he⟩ := ofMembers_eq_ok h
  cases hp with | object ha hm =>
  have hg : Ascending s.globals := hs ▸ ha.filter _
  refine .object (hg.insert _ _) fun m hi => ?_
  rcases mem_insert hi with rfl | hi
  · have hc := hm _ <| ha.lookup_eq_some_iff.mp hl
    cases hc with | list hc =>
    refine .list fun j hj => ?_
    rw [he, map_mapIdx] at hj
    have ⟨i, hlt, hj⟩ := List.mem_mapIdx.mp hj
    exact hj ▸ Entry.toItem_proper hg (hc _ <| List.getElem_mem hlt)
  · exact hm m <| List.mem_of_mem_filter <| hs ▸ hi

theorem sameAll_mapIdx {items : List Json} {f g : Nat → Json → Entry}
    (h : ∀ i, ∀ j ∈ items, (f i j).same (g i j) = true) :
    Entry.sameAll (items.mapIdx f) (items.mapIdx g) = true := by
  induction items generalizing f g
  case nil => rfl
  case cons j js hi =>
    rw [List.mapIdx_cons, List.mapIdx_cons, Entry.sameAll, h 0 j <| .head js,
      hi fun i k hk => h (i + 1) k <| .tail j hk]
    rfl

-- What is written for a set makes the same set, and the same is written for either.
theorem ofMembers_restored (hp : Proper d (.object root)) (h : ofMembers root = .ok s) :
    ∃ ms t, s.toJson = .object ms ∧ ofMembers ms = .ok t ∧ s.same t = true ∧ t.toJson = s.toJson := by
  have ⟨items, hl, hs, he⟩ := ofMembers_eq_ok h
  cases hp with | object ha hm =>
  have hg : Ascending s.globals := hs ▸ ha.filter _
  have hc : ∀ j ∈ items, ∀ fields, j = .object fields → Ascending fields := by
    rintro j hj fields rfl
    cases hm _ <| ha.lookup_eq_some_iff.mp hl with | list hi =>
    cases hi _ hj with | object hf _ => exact hf
  let written := s.entries.map (Entry.toItem s.globals)
  let t : CheckSet := ⟨s.globals, written.mapIdx (Entry.ofItem s.globals)⟩
  have hw : written = items.mapIdx fun i j => (Entry.ofItem s.globals i j).toItem s.globals := by
    simp only [written, he, map_mapIdx]
  have ht : t.entries = items.mapIdx fun i j =>
      Entry.ofItem s.globals i ((Entry.ofItem s.globals i j).toItem s.globals) := by
    simp only [t, hw, List.mapIdx_mapIdx]
    rfl
  have hn : lookup "checks" s.globals = none := hs ▸ lookup_filter_self ha
  have hf : (insert "checks" (.list written) s.globals).filter (·.1 != "checks") = s.globals := by
    refine Ascending.eq_of_lookup_eq ((hg.insert _ _).filter _) hg fun name => ?_
    by_cases hc : name = "checks"
    case pos => rw [hc, lookup_filter_self <| hg.insert _ _, hn]
    case neg => rw [lookup_filter_ne (hg.insert _ _) hc, lookup_insert_of_ne hc]
  refine ⟨_, t, rfl, ?_, ?_, ?_⟩
  · simp only [ofMembers, lookup_insert_self, hf, t, written]
  · have hm : sameMembers s.globals t.globals = true := sameMembers_self _
    have hi : Entry.sameAll s.entries t.entries = true := by
      rw [ht, he]
      exact sameAll_mapIdx fun i j hj => (Entry.restored hg <| hc j hj).1
    rw [same, hm, hi]
    rfl
  · have hi : t.entries.map (Entry.toItem s.globals) = written := by
      rw [ht, hw, map_mapIdx]
      refine List.mapIdx_eq_mapIdx_iff.mpr fun i hlt => ?_
      exact (Entry.restored hg <| hc _ <| List.getElem_mem hlt).2
    exact congrArg (fun items => Json.object (insert "checks" (.list items) s.globals)) hi

-- Blank text is read like an empty list of checks.
theorem parse_eq_ok (h : parse text = .ok s) :
    ∃ root, Proper maxDepth (.object root) ∧ ofMembers root = .ok s := by
  unfold parse at h
  split at h
  · cases h
    refine ⟨[("checks", .list [])], ?_, rfl⟩
    exact .object (List.pairwise_singleton ..) fun m hm => List.mem_singleton.mp hm ▸ .list nofun
  · split at h
    · cases h
    · rename_i root hr
      exact ⟨root, parse_proper hr, h⟩
    · cases h

theorem not_isBlankText_compact (ms : List (String × Json)) :
    ¬Text.IsBlankText (Json.object ms).compact := by
  intro h
  refine absurd (h '\x7b' ?_) (by decide)
  rw [compact, String.toList_ofList, chars_object]
  exact .head _

-- Whatever text the set was read from, the text that is written for it is read as the same set, whose
-- own text, and with it the digest, is that text again.
theorem parse_write (h : parse text = .ok s) :
    ∃ t, parse s.write = .ok t ∧ s.same t = true ∧ t.write = s.write ∧ t.digest = s.digest := by
  have ⟨root, hp, hm⟩ := parse_eq_ok h
  have ⟨ms, t, hj, ht, hs, hw⟩ := ofMembers_restored hp hm
  have hr : Json.parse s.write = .ok (.object ms) := hj ▸ parse_compact (toJson_proper hp hm)
  have hb : ¬Text.IsBlankText s.write := by
    rw [write, hj]
    exact not_isBlankText_compact ms
  have he : t.write = s.write := congrArg compact hw
  refine ⟨t, ?_, hs, he, congrArg Digest.ofText he⟩
  rw [parse, if_neg hb, hr]
  exact ht

-- A global called `type`, a parameter called `checks`, one that is a global but for the sign of its
-- zero, blanks around a type, and items that are no requests.
def clashing : String :=
  "\x7b\"type\": 1, \"x\": 0.0, \"checks\": [" ++
    "\x7b\"type\": \" a \", \"x\": -0.0, \"checks\": []\x7d, [7, null], \x7b\"x\": -0.0\x7d]\x7d"

theorem parse_write_clashing : ∃ s, parse clashing = .ok s ∧
    s.write = "\x7b\"checks\":[\x7b\"checks\":[],\"type\":\"a\"\x7d,[7,null],\x7b\"x\":-0.0\x7d]," ++
      "\"type\":1,\"x\":0.0\x7d" ∧
    ∃ t, parse s.write = .ok t ∧ s.same t = true ∧ t.write = s.write ∧ t.digest = s.digest := by
  have hw : (parse clashing).toOption.map write =
      some ("\x7b\"checks\":[\x7b\"checks\":[],\"type\":\"a\"\x7d,[7,null],\x7b\"x\":-0.0\x7d]," ++
        "\"type\":1,\"x\":0.0\x7d") := by
    decide +kernel
  cases h : parse clashing
  case error => rw [h] at hw; cases hw
  case ok s => rw [h] at hw; exact ⟨s, rfl, Option.some.inj hw, parse_write h⟩

end CheckSet

end ModelAudit

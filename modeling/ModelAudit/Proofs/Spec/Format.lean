import ModelAudit.Proofs.Spec.RoundTrip

namespace ModelAudit

open Json

variable {globals fields : List (String × Json)} {item : Json} {index : Nat} {key check text : String}
  {s : CheckSet}

-- An item stands before the globals, but its type is no parameter.
theorem lookup_mergeParameters (hf : Ascending fields) : lookup key (mergeParameters globals fields) =
    (if key = "type" then none else lookup key fields).or (lookup key globals) := by
  refine (lookup_insertAll (hf.filter _) _ _).trans ?_
  split
  case isTrue h => rw [h, lookup_filter_self hf]
  case isFalse h => rw [lookup_filter_ne hf h]

-- The item is an object with a text for its type, and one that is not blank.
structure Json.AsksFor (item : Json) (fields : List (String × Json)) (type : String) : Prop where
  isObject : item = .object fields
  typed    : lookup "type" fields = some (.text type)
  notBlank : ¬Text.IsBlankText type

theorem Json.AsksFor.requestedType? {type : String} (h : item.AsksFor fields type) :
    requestedType? fields = some (Text.trim type) :=
  requestedType?_eq_some_iff.mpr ⟨type, h.typed, h.notBlank, rfl⟩

namespace Entry

-- What the item of that index is to be taken for.
structure Renders (globals : List (String × Json)) (index : Nat) (item : Json) (e : Entry) : Prop where
  request_iff : (∃ r, e = .request r) ↔ ∃ fields type, item.AsksFor fields type
  request     : ∀ r, e = .request r → ∀ fields type, item.AsksFor fields type →
    r.check = Text.trim type ∧ Ascending r.parameters ∧ ∀ key, lookup key r.parameters =
      (if key = "type" then none else lookup key fields).or (lookup key globals)
  malformed   : ∀ raw error, e = .malformed raw error → raw = item ∧
    ((∀ fields, item ≠ .object fields) → error.fragment = "checks[" ++ Text.natural index ++ "]") ∧
    ((∃ fields, item = .object fields) → error.fragment = "checks[" ++ Text.natural index ++ "].type")

theorem ofItem_of_asksFor {type : String} (h : item.AsksFor fields type) :
    ofItem globals index item = .request ⟨Text.trim type, mergeParameters globals fields⟩ := by
  simp only [h.isObject, ofItem, h.requestedType?]

theorem ofItem_of_untyped (h : requestedType? fields = none) :
    ofItem globals index (.object fields) = .malformed (.object fields) (.typeMissing index) := by
  simp only [ofItem, h]

theorem ofItem_of_noObject (h : ∀ fields, item ≠ .object fields) :
    ofItem globals index item = .malformed item (.entryNotObject index) := by
  cases item
  case object fields => exact absurd rfl <| h fields
  all_goals rfl

theorem renders_of_request {type : String} (hg : Ascending globals) (hf : Ascending fields)
    (h : item.AsksFor fields type) : (ofItem globals index item).Renders globals index item := by
  rw [ofItem_of_asksFor h]
  constructor
  case request_iff => exact iff_of_true ⟨_, rfl⟩ ⟨fields, type, h⟩
  case malformed => intro _ _ hm; cases hm
  case request =>
    intro r hr fields' type' h'
    -- an item has one list of members, and one type
    cases h.isObject.symm.trans h'.isObject
    cases h.typed.symm.trans h'.typed
    cases hr
    exact ⟨rfl, hg.insertAll _, fun _ => lookup_mergeParameters hf⟩

-- What is malformed has to be no request, and to be told from the other kind.
theorem renders_of_malformed {error : SpecError} (hn : ¬∃ fields type, item.AsksFor fields type)
    (ho : (∀ fields, item ≠ .object fields) → error.fragment = "checks[" ++ Text.natural index ++ "]")
    (ht : (∃ fields, item = .object fields) → error.fragment = "checks[" ++ Text.natural index ++ "].type") :
    (Entry.malformed item error).Renders globals index item := by
  constructor
  case request_iff => exact iff_of_false (by simp) hn
  case request => intro _ hr; cases hr
  case malformed => intro _ _ hm; cases hm; exact ⟨rfl, ho, ht⟩

theorem renders_of_untyped (hr : requestedType? fields = none) :
    (ofItem globals index (.object fields)).Renders globals index (.object fields) := by
  rw [ofItem_of_untyped hr]
  refine renders_of_malformed ?_ (fun ho => absurd rfl <| ho fields) fun _ => ?_
  case refine_1 =>
    rintro ⟨_, _, h⟩
    cases h.isObject
    cases hr.symm.trans h.requestedType?
  case refine_2 =>
    rw [SpecError.fragment, SpecError.item, String.append_assoc]
    rfl

theorem renders_of_noObject (ho : ∀ fields, item ≠ .object fields) :
    (ofItem globals index item).Renders globals index item := by
  rw [ofItem_of_noObject ho]
  refine renders_of_malformed ?_ (fun _ => rfl) ?_
  case refine_1 => rintro ⟨_, _, h⟩; exact ho _ h.isObject
  case refine_2 => rintro ⟨_, h⟩; exact absurd h <| ho _

theorem ofItem_renders (hg : Ascending globals) (hf : ∀ fields, item = .object fields → Ascending fields) :
    (ofItem globals index item).Renders globals index item := by
  cases item
  case object fields =>
    cases hr : requestedType? fields
    case none => exact renders_of_untyped hr
    case some =>
      have ⟨type, ht, hb, _⟩ := requestedType?_eq_some_iff.mp hr
      exact renders_of_request hg (hf fields rfl) ⟨rfl, ht, hb⟩
  all_goals exact renders_of_noObject nofun

end Entry

namespace CheckSet

-- The text is not JSON, or it writes another value than an object.
def WritesNoObject (text : String) : Prop :=
  ∀ root, Json.parse text ≠ .ok (.object root)

-- The text writes an object, but there is no list of checks in it.
def WritesNoChecks (text : String) : Prop :=
  ∃ root, Json.parse text = .ok (.object root) ∧ ∀ items, lookup "checks" root ≠ some (.list items)

-- The text writes an object with these members, and the list of checks has these items.
structure Writes (text : String) (root : List (String × Json)) (items : List Json) : Prop where
  isObject : Json.parse text = .ok (.object root)
  checks   : lookup "checks" root = some (.list items)

-- What an object with these members and these checks is to be taken for.
structure Renders (root : List (String × Json)) (items : List Json) (s : CheckSet) : Prop where
  ascending : Ascending s.globals
  globals   : ∀ key, lookup key s.globals = if key = "checks" then none else lookup key root
  length    : s.entries.length = items.length
  entries   : ∀ (i : Nat) item e, items[i]? = some item → s.entries[i]? = some e →
    e.Renders s.globals i item

-- What a text that is not blank comes to.
inductive Reading (text : String) : Except SpecError CheckSet → Prop
  | noObject {e} (h : WritesNoObject text) (hf : e.fragment = "<document>") : Reading text (.error e)
  | noChecks {e} (h : WritesNoChecks text) (hf : e.fragment = "checks") : Reading text (.error e)
  | checks {root items s} (h : Writes text root items) (hs : s.Renders root items) : Reading text (.ok s)

-- What texts are to be taken for.
structure Understands (text : String) : Prop where
  blank    : Text.IsBlankText text → parse text = .ok empty
  refused  : ¬Text.IsBlankText text →
    ((∃ e, parse text = .error e) ↔ WritesNoObject text ∨ WritesNoChecks text)
  document : ∀ e, parse text = .error e → (e.fragment = "<document>" ↔ WritesNoObject text)
  checks   : ∀ e, parse text = .error e → (e.fragment = "checks" ↔ WritesNoChecks text)
  read     : ¬Text.IsBlankText text → ∀ s, parse text = .ok s →
    ∃ root items, Writes text root items ∧ s.Renders root items

theorem WritesNoChecks.not_writesNoObject (h : WritesNoChecks text) : ¬WritesNoObject text :=
  fun hn => have ⟨root, hr, _⟩ := h; hn root hr

namespace Writes

variable {root : List (String × Json)} {items : List Json}

theorem not_writesNoObject (h : Writes text root items) : ¬WritesNoObject text :=
  fun hn => hn root h.isObject

theorem not_writesNoChecks (h : Writes text root items) : ¬WritesNoChecks text := by
  intro ⟨root', hr, hc⟩
  cases h.isObject.symm.trans hr
  exact hc items h.checks

-- The globals are all members but one, and each item makes an entry of its own.
theorem renders (h : Writes text root items) :
    let globals := root.filter (·.1 != "checks")
    Renders root items ⟨globals, items.mapIdx (Entry.ofItem globals)⟩ := by
  intro globals
  cases parse_proper h.isObject with | object ha hm =>
  have hg : Ascending globals := ha.filter _
  constructor
  case ascending => exact hg
  case globals =>
    intro key
    split
    case isTrue hk => rw [hk, lookup_filter_self ha]
    case isFalse hk => exact lookup_filter_ne ha hk
  case length => exact List.length_mapIdx
  case entries =>
    intro i item e hi he
    rw [List.getElem?_mapIdx, hi] at he
    cases he
    refine Entry.ofItem_renders hg fun fields hf => ?_
    subst hf
    cases hm _ <| ha.lookup_eq_some_iff.mp h.checks with | list hl =>
    cases hl _ <| List.mem_of_getElem? hi with | object hf _ => exact hf

end Writes

theorem parse_of_isBlankText (hb : Text.IsBlankText text) : parse text = .ok empty :=
  if_pos hb

theorem not_isBlankText_of_error {e : SpecError} (h : parse text = .error e) : ¬Text.IsBlankText text := by
  intro hb
  cases h.symm.trans <| parse_of_isBlankText hb

theorem reading (hb : ¬Text.IsBlankText text) : Reading text (parse text) := by
  rw [parse, if_neg hb]
  split
  case h_1 e h => exact .noObject (by simp [WritesNoObject, h]) rfl
  case h_3 j hn h => exact .noObject (by simpa [WritesNoObject, h] using hn) rfl
  case h_2 root h =>
    unfold ofMembers
    split
    case h_1 items hc =>
      have hw : Writes text root items := ⟨h, hc⟩
      exact .checks hw hw.renders
    case h_2 hn hc => exact .noChecks ⟨root, h, by simpa [hc] using hn⟩ rfl
    case h_3 hc => exact .noChecks ⟨root, h, by simp [hc]⟩ rfl

theorem renders_of_parse (hb : ¬Text.IsBlankText text) (h : parse text = .ok s) :
    ∃ root items, Writes text root items ∧ s.Renders root items := by
  generalize hr : parse text = result at h
  cases hr ▸ reading hb
  case checks hw hs => cases h; exact ⟨_, _, hw, hs⟩
  all_goals cases h

-- What a request says of a parameter is what its item says, and else what the text says of all requests.
theorem exists_item_of_request {r : Request} {i : Nat} (h : parse text = .ok s)
    (hi : s.entries[i]? = some (.request r)) : ∃ root items fields, Writes text root items ∧
      items[i]? = some (.object fields) ∧ ∀ key, lookup key r.parameters =
        (if key = "type" then none else lookup key fields).or
          (if key = "checks" then none else lookup key root) := by
  have hb : ¬Text.IsBlankText text := by
    intro hb
    cases h.symm.trans <| parse_of_isBlankText hb
    cases hi
  obtain ⟨root, items, hw, hs⟩ := renders_of_parse hb h
  have hlt : i < items.length := hs.length ▸ (List.getElem?_eq_some_iff.mp hi).1
  have hr := hs.entries i _ _ (List.getElem?_eq_getElem hlt) hi
  obtain ⟨fields, type, ha⟩ := hr.request_iff.mp ⟨r, rfl⟩
  refine ⟨root, items, fields, hw, ha.isObject ▸ List.getElem?_eq_getElem hlt, fun key => ?_⟩
  rw [(hr.request r rfl fields type ha).right.right key, hs.globals]

-- Blank text asks for nothing. Any other one is refused if and only if it does not write an object with a list
-- of checks, and the fragment tells which of the two is missing; and if it is not refused, it is read as what
-- the object says.
theorem understands (text : String) : Understands text where
  blank := parse_of_isBlankText
  refused := by
    intro hb
    have hr := reading hb
    generalize parse text = result at hr ⊢
    cases hr
    case noObject h _ => exact iff_of_true ⟨_, rfl⟩ <| .inl h
    case noChecks h _ => exact iff_of_true ⟨_, rfl⟩ <| .inr h
    case checks hw _ => exact iff_of_false nofun fun h => h.elim hw.not_writesNoObject hw.not_writesNoChecks
  document := by
    intro e he
    cases he ▸ reading (not_isBlankText_of_error he)
    case noObject h hf => exact iff_of_true hf h
    case noChecks h hf => exact iff_of_false (by rw [hf]; decide) h.not_writesNoObject
  checks := by
    intro e he
    cases he ▸ reading (not_isBlankText_of_error he)
    case noObject h hf => exact iff_of_false (by rw [hf]; decide) fun hc => hc.not_writesNoObject h
    case noChecks h hf => exact iff_of_true hf h
  read := fun hb _ => renders_of_parse hb

end CheckSet

end ModelAudit

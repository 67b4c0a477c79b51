import ModelAudit.Json.Value

namespace ModelAudit

-- The number, without a minus sign if it is a zero.
def Binary64.plainZero (x : Binary64) : Binary64 :=
  if x.magnitude = 0 then zero false else x

theorem Binary64.same_iff_plainZero {x y : Binary64} : x.same y = true ↔ x.plainZero = y.plainZero := by
  obtain ⟨m, k, _⟩ := x
  obtain ⟨n, l, _⟩ := y
  rw [same_iff]
  unfold plainZero zero
  by_cases hk : k = 0 <;> by_cases hl : l = 0 <;> simp [hk, hl] <;> grind

namespace Json

def Number.plainZero : Number → Number
  | .int n => .int n
  | .float x => .float x.plainZero

theorem Number.same_iff {m n : Number} : m.same n = true ↔ m.plainZero = n.plainZero := by
  cases m <;> cases n <;> simp [Number.same, plainZero, Binary64.same_iff_plainZero]

mutual

-- The value without the minus signs in front of its zeros.
def plainZeros : Json → Json
  | .number n => .number n.plainZero
  | .list js => .list (plainItems js)
  | .object ms => .object (plainMembers ms)
  | j => j

def plainItems : List Json → List Json
  | [] => []
  | j :: js => plainZeros j :: plainItems js

def plainMembers : List (String × Json) → List (String × Json)
  | [] => []
  | (name, j) :: ms => (name, plainZeros j) :: plainMembers ms

end

mutual

theorem same_iff : ∀ {j k : Json}, same j k = true ↔ plainZeros j = plainZeros k
  | .null, k => by cases k <;> simp [same, plainZeros]
  | .bool _, k => by cases k <;> simp [same, plainZeros]
  | .number _, k => by cases k <;> simp [same, plainZeros, Number.same_iff]
  | .text _, k => by cases k <;> simp [same, plainZeros]
  | .list js, k => by cases k <;> simp [same, plainZeros, @sameItems_iff js]
  | .object ms, k => by cases k <;> simp [same, plainZeros, @sameMembers_iff ms]

theorem sameItems_iff : ∀ {js ks : List Json}, sameItems js ks = true ↔ plainItems js = plainItems ks
  | [], ks => by cases ks <;> simp [sameItems, plainItems]
  | j :: js, ks => by cases ks <;> simp [sameItems, plainItems, same_iff (j := j), @sameItems_iff js]

theorem sameMembers_iff : ∀ {ms ns : List (String × Json)},
    sameMembers ms ns = true ↔ plainMembers ms = plainMembers ns
  | [], ns => by rcases ns with _ | ⟨⟨_, _⟩, _⟩ <;> simp [sameMembers, plainMembers]
  | (name, j) :: ms, ns => by
    rcases ns with _ | ⟨⟨_, _⟩, _⟩ <;>
      simp [sameMembers, plainMembers, same_iff (j := j), @sameMembers_iff ms]

end

mutual

-- The signs of the zeros, in the order in which they are written.
def zeroSigns : Json → List Bool
  | .number (.float x) => if x.magnitude = 0 then [x.negative] else []
  | .list js => itemSigns js
  | .object ms => memberSigns ms
  | _ => []

def itemSigns : List Json → List Bool
  | [] => []
  | j :: js => zeroSigns j ++ itemSigns js

def memberSigns : List (String × Json) → List Bool
  | [] => []
  | (_, j) :: ms => zeroSigns j ++ memberSigns ms

end

mutual

-- Taking minus signs away leaves the zeros where they were.
theorem length_zeroSigns : ∀ j : Json, (zeroSigns (plainZeros j)).length = (zeroSigns j).length
  | .number (.int _) => rfl
  | .number (.float x) => by
    by_cases h : x.magnitude = 0 <;>
      simp [plainZeros, Number.plainZero, Binary64.plainZero, zeroSigns, Binary64.zero, h]
  | .list js => by simpa [plainZeros, zeroSigns] using length_itemSigns js
  | .object ms => by simpa [plainZeros, zeroSigns] using length_memberSigns ms
  | .null => rfl
  | .bool _ => rfl
  | .text _ => rfl

theorem length_itemSigns : ∀ js : List Json, (itemSigns (plainItems js)).length = (itemSigns js).length
  | [] => rfl
  | j :: js => by simp [plainItems, itemSigns, length_zeroSigns j, length_itemSigns js]

theorem length_memberSigns : ∀ ms : List (String × Json),
    (memberSigns (plainMembers ms)).length = (memberSigns ms).length
  | [] => rfl
  | (_, j) :: ms => by simp [plainMembers, memberSigns, length_zeroSigns j, length_memberSigns ms]

end

theorem Number.eq_of_zeroSigns {m n : Number} (h : m.plainZero = n.plainZero)
    (hs : zeroSigns (.number m) = zeroSigns (.number n)) : m = n := by
  cases m <;> cases n <;> simp only [plainZero, Number.int.injEq, Number.float.injEq, reduceCtorEq] at h ⊢
  case int.int => exact h
  case float.float x y =>
    have he := Binary64.same_iff.mp <| Binary64.same_iff_plainZero.mpr h
    obtain ⟨m, k, _⟩ := x
    obtain ⟨n, l, _⟩ := y
    by_cases hk : k = 0 <;> simp_all [zeroSigns]

mutual

-- The values of one list are written one after the other, and the zeros of each are as many as those
-- of its counterpart: so the signs can be told apart value by value.
theorem eq_of_zeroSigns : ∀ {j k : Json}, plainZeros j = plainZeros k → zeroSigns j = zeroSigns k → j = k
  | .null, k, h, _ => by cases k <;> simp_all [plainZeros]
  | .bool _, k, h, _ => by cases k <;> simp_all [plainZeros]
  | .text _, k, h, _ => by cases k <;> simp_all [plainZeros]
  | .number m, k, h, hs => by
    cases k <;> simp only [plainZeros, reduceCtorEq, Json.number.injEq] at h
    exact congrArg _ <| Number.eq_of_zeroSigns h hs
  | .list js, k, h, hs => by
    cases k <;> simp only [plainZeros, reduceCtorEq, Json.list.injEq] at h
    exact congrArg _ <| eq_of_itemSigns h hs
  | .object ms, k, h, hs => by
    cases k <;> simp only [plainZeros, reduceCtorEq, Json.object.injEq] at h
    exact congrArg _ <| eq_of_memberSigns h hs

theorem eq_of_itemSigns : ∀ {js ks : List Json},
    plainItems js = plainItems ks → itemSigns js = itemSigns ks → js = ks
  | [], ks, h, _ => by cases ks <;> simp_all [plainItems]
  | j :: js, [], h, _ => by simp [plainItems] at h
  | j :: js, k :: ks, h, hs => by
    have ⟨hj, ht⟩ : plainZeros j = plainZeros k ∧ plainItems js = plainItems ks := by
      simpa [plainItems] using h
    have hl : (zeroSigns j).length = (zeroSigns k).length := by
      rw [← length_zeroSigns j, hj, length_zeroSigns]
    have ⟨hn, hm⟩ := List.append_inj hs hl
    rw [eq_of_zeroSigns hj hn, eq_of_itemSigns ht hm]

theorem eq_of_memberSigns : ∀ {ms ns : List (String × Json)},
    plainMembers ms = plainMembers ns → memberSigns ms = memberSigns ns → ms = ns
  | [], ns, h, _ => by rcases ns with _ | ⟨⟨_, _⟩, _⟩ <;> simp_all [plainMembers]
  | (_, j) :: ms, [], h, _ => by simp [plainMembers] at h
  | (m, j) :: ms, (n, k) :: ns, h, hs => by
    have ⟨⟨he, hj⟩, ht⟩ : (m = n ∧ plainZeros j = plainZeros k) ∧ plainMembers ms = plainMembers ns := by
      simpa [plainMembers] using h
    have hl : (zeroSigns j).length = (zeroSigns k).length := by
      rw [← length_zeroSigns j, hj, length_zeroSigns]
    have ⟨hn, hm⟩ := List.append_inj hs hl
    rw [he, eq_of_zeroSigns hj hn, eq_of_memberSigns ht hm]

end

-- Values that are the same are equal exactly if their zeros have the same signs.
theorem zeroSigns_eq_iff {j k : Json} (h : same j k = true) : zeroSigns j = zeroSigns k ↔ j = k :=
  ⟨eq_of_zeroSigns <| same_iff.mp h, congrArg zeroSigns⟩

theorem plainMembers_eq (ms : List (String × Json)) :
    plainMembers ms = ms.map fun m => (m.1, plainZeros m.2) := by
  induction ms <;> simp_all [plainMembers]

theorem Number.plainZero_plainZero (n : Number) : n.plainZero.plainZero = n.plainZero := by
  cases n
  case int => rfl
  case float x =>
    by_cases h : x.magnitude = 0 <;> simp [plainZero, Binary64.plainZero, Binary64.zero, h]

mutual

theorem plainZeros_plainZeros : ∀ j : Json, plainZeros (plainZeros j) = plainZeros j
  | .null => rfl
  | .bool _ => rfl
  | .text _ => rfl
  | .number n => by simp [plainZeros, n.plainZero_plainZero]
  | .list js => by simpa [plainZeros] using plainItems_plainItems js
  | .object ms => by simpa [plainZeros] using plainMembers_plainMembers ms

theorem plainItems_plainItems : ∀ js : List Json, plainItems (plainItems js) = plainItems js
  | [] => rfl
  | j :: js => by simp [plainItems, plainZeros_plainZeros j, plainItems_plainItems js]

theorem plainMembers_plainMembers : ∀ ms : List (String × Json),
    plainMembers (plainMembers ms) = plainMembers ms
  | [] => rfl
  | (_, j) :: ms => by simp [plainMembers, plainZeros_plainZeros j, plainMembers_plainMembers ms]

end

theorem same_plainZeros (j k : Json) : same (plainZeros j) (plainZeros k) = same j k := by
  rw [Bool.eq_iff_iff, same_iff, same_iff, plainZeros_plainZeros, plainZeros_plainZeros]

theorem lookup_plainMembers (name : String) (ms : List (String × Json)) :
    lookup name (plainMembers ms) = (lookup name ms).map plainZeros := by
  simp [lookup, plainMembers_eq, List.find?_map, Function.comp_def]

theorem Ascending.plainMembers {ms : List (String × Json)} (h : Ascending ms) :
    Ascending (plainMembers ms) := by
  rw [plainMembers_eq]
  exact List.pairwise_map.mpr h

theorem insert_plainMembers (name : String) (j : Json) (ms : List (String × Json)) :
    plainMembers (insert name j ms) = insert name (plainZeros j) (plainMembers ms) := by
  induction ms
  case nil => rfl
  case cons m ms hi =>
    by_cases hl : name < m.1 <;> by_cases he : name = m.1 <;> simp [insert, plainMembers, hl, he, hi]

end Json

end ModelAudit

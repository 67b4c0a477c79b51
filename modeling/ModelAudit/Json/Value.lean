import ModelAudit.Decimal.Binary64

namespace ModelAudit

inductive Json.Number where
  -- Written without fraction and exponent, between `-2 ^ 63` and `2 ^ 64 - 1`.
  | int (n : Int)
  | float (x : Binary64)
deriving DecidableEq, Repr

-- An object that was read has its names in ascending order, each of them once.
inductive Json where
  | null
  | bool (b : Bool)
  | number (n : Json.Number)
  | text (s : String)
  | list (items : List Json)
  | object (members : List (String × Json))
deriving Repr

namespace Json

-- An integer never equals a float, and the two float zeros are equal.
def Number.same : Number → Number → Bool
  | .int m, .int n => m == n
  | .float x, .float y => x.same y
  | _, _ => false

mutual

def same : Json → Json → Bool
  | .null, .null => true
  | .bool a, .bool b => a == b
  | .number m, .number n => m.same n
  | .text s, .text t => s == t
  | .list xs, .list ys => sameItems xs ys
  | .object ms, .object ns => sameMembers ms ns
  | _, _ => false

def sameItems : List Json → List Json → Bool
  | [], [] => true
  | x :: xs, y :: ys => same x y && sameItems xs ys
  | _, _ => false

def sameMembers : List (String × Json) → List (String × Json) → Bool
  | [], [] => true
  | (j, x) :: ms, (k, y) :: ns => j == k && same x y && sameMembers ms ns
  | _, _ => false

end

theorem Number.same_self (n : Number) : n.same n = true := by
  cases n with
  | int n => simp [Number.same]
  | float x => exact x.same_self

mutual

theorem same_self : ∀ j : Json, same j j = true
  | .null => by simp [same]
  | .bool _ => by simp [same]
  | .number n => by simp [same, Number.same_self]
  | .text _ => by simp [same]
  | .list xs => by simpa [same] using sameItems_self xs
  | .object ms => by simpa [same] using sameMembers_self ms

theorem sameItems_self : ∀ xs : List Json, sameItems xs xs = true
  | [] => by simp [sameItems]
  | x :: xs => by simp [sameItems, same_self x, sameItems_self xs]

theorem sameMembers_self : ∀ ms : List (String × Json), sameMembers ms ms = true
  | [] => by simp [sameMembers]
  | (k, x) :: ms => by simp [sameMembers, same_self x, sameMembers_self ms]

end

def lookup (name : String) (members : List (String × Json)) : Option Json :=
  (members.find? fun m => m.1 == name).map (·.2)

def insert (name : String) (value : Json) : List (String × Json) → List (String × Json)
  | [] => [(name, value)]
  | m :: ms =>
    if name < m.1 then (name, value) :: m :: ms
    else if name = m.1 then (name, value) :: ms
    else m :: insert name value ms

def Ascending (members : List (String × Json)) : Prop :=
  members.Pairwise fun m n => m.1 < n.1

theorem mem_insert {name : String} {value : Json} {members : List (String × Json)}
    {m : String × Json} (h : m ∈ insert name value members) : m = (name, value) ∨ m ∈ members := by
  induction members with
  | nil => simpa [insert] using h
  | cons n ns ih =>
    unfold insert at h
    split at h
    · simpa using h
    · split at h
      · simp only [List.mem_cons] at h ⊢
        rcases h with h | h
        · exact .inl h
        · exact .inr (.inr h)
      · simp only [List.mem_cons] at h ⊢
        rcases h with h | h
        · exact .inr (.inl h)
        · rcases ih h with h | h
          · exact .inl h
          · exact .inr (.inr h)

theorem Ascending.insert {members : List (String × Json)} (h : Ascending members) (name : String)
    (value : Json) : Ascending (Json.insert name value members) := by
  induction members with
  | nil => simp [Json.insert, Ascending]
  | cons n ns ih =>
    have hn := List.pairwise_cons.1 h
    unfold Json.insert
    split
    · rename_i hlt
      refine List.pairwise_cons.2 ⟨?_, h⟩
      intro m hm
      simp only [List.mem_cons] at hm
      rcases hm with rfl | hm
      · exact hlt
      · exact String.lt_trans hlt (hn.1 m hm)
    · split
      · rename_i heq
        refine List.pairwise_cons.2 ⟨?_, hn.2⟩
        intro m hm
        exact heq ▸ hn.1 m hm
      · rename_i hlt hne
        refine List.pairwise_cons.2 ⟨?_, ih hn.2⟩
        intro m hm
        rcases mem_insert hm with rfl | hm
        · -- the order is total, so what is neither less nor equal is greater
          exact Std.lt_of_le_of_ne (String.not_lt.1 hlt) fun e => hne e.symm
        · exact hn.1 m hm

theorem lookup_insert_self (name : String) (value : Json) (members : List (String × Json)) :
    lookup name (Json.insert name value members) = some value := by
  induction members with
  | nil => simp [Json.insert, lookup]
  | cons n ns ih =>
    unfold Json.insert
    split
    · simp [lookup]
    · split
      · simp [lookup]
      · rename_i hne
        have hn : (n.1 == name) = false := by
          simpa using fun e => hne e.symm
        simpa [lookup, hn] using ih

theorem lookup_insert_of_ne {name other : String} (h : other ≠ name) (value : Json)
    (members : List (String × Json)) :
    lookup other (Json.insert name value members) = lookup other members := by
  have hname : (name == other) = false := by simpa using fun e => h e.symm
  induction members with
  | nil => simp [Json.insert, lookup, hname]
  | cons n ns ih =>
    unfold Json.insert
    split
    · simp [lookup, hname]
    · split
      · rename_i heq
        have hn : (n.1 == other) = false := by simpa [← heq] using fun e => h e.symm
        simp [lookup, hname, hn]
      · unfold lookup at ih ⊢
        by_cases hn : (n.1 == other) = true
        · simp [hn]
        · simpa [hn] using ih

end Json

end ModelAudit

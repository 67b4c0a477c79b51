namespace ModelAudit.Text

-- The code points with the property White_Space, as closed ranges, ascending and apart.
def blankRanges : List (Nat × Nat) :=
  [(0x09, 0x0D), (0x20, 0x20), (0x85, 0x85), (0xA0, 0xA0), (0x1680, 0x1680), (0x2000, 0x200A),
    (0x2028, 0x2029), (0x202F, 0x202F), (0x205F, 0x205F), (0x3000, 0x3000)]

def isBlank (c : Char) : Bool :=
  blankRanges.any fun r => r.1 ≤ c.toNat && c.toNat ≤ r.2

def IsBlankText (s : String) : Prop :=
  ∀ c ∈ s.toList, isBlank c = true

instance (s : String) : Decidable (IsBlankText s) :=
  decidable_of_iff (s.toList.all isBlank = true) List.all_eq_true

def trimChars (cs : List Char) : List Char :=
  ((cs.dropWhile isBlank).reverse.dropWhile isBlank).reverse

def trim (s : String) : String :=
  String.ofList (trimChars s.toList)

theorem dropWhile_isBlank_eq_nil_iff {cs : List Char} :
    cs.dropWhile isBlank = [] ↔ ∀ c ∈ cs, isBlank c = true := by
  induction cs with
  | nil => simp
  | cons c cs ih => by_cases h : isBlank c = true <;> simp [h, ih]

theorem trimChars_eq_nil_iff {cs : List Char} :
    trimChars cs = [] ↔ ∀ c ∈ cs, isBlank c = true := by
  rw [← dropWhile_isBlank_eq_nil_iff]
  constructor
  · intro h
    have hr : (cs.dropWhile isBlank).reverse.dropWhile isBlank = [] := by
      simpa [trimChars] using h
    -- whatever starts the kept part is not blank, so nothing is kept
    cases hd : cs.dropWhile isBlank with
    | nil => rfl
    | cons a l =>
      have ha := List.head?_dropWhile_not isBlank cs
      have hb := dropWhile_isBlank_eq_nil_iff.1 hr a (by simp [hd])
      simp [hd, hb] at ha
  · intro h
    simp [trimChars, h]

theorem trim_eq_empty_iff {s : String} : trim s = "" ↔ IsBlankText s := by
  have h : trim s = "" ↔ trimChars s.toList = [] := by
    constructor
    · intro e
      have := congrArg String.toList e
      simpa [trim] using this
    · intro e
      simp [trim, e]
  rw [h, trimChars_eq_nil_iff]
  rfl

theorem dropWhile_isBlank_eq_self {cs : List Char} (h : ∀ c ∈ cs.head?, isBlank c = false) :
    cs.dropWhile isBlank = cs := by
  cases cs with
  | nil => rfl
  | cons c cs => exact List.dropWhile_cons_of_neg (by simp [h c rfl])

theorem head?_dropWhile_isBlank (cs : List Char) :
    ∀ c ∈ (cs.dropWhile isBlank).head?, isBlank c = false := by
  intro c hc
  have h := List.head?_dropWhile_not isBlank cs
  rw [Option.mem_def.1 hc] at h
  exact h

theorem trimChars_trimChars (cs : List Char) : trimChars (trimChars cs) = trimChars cs := by
  let ds := cs.dropWhile isBlank
  let es := ds.reverse.dropWhile isBlank
  -- what is kept starts like what was left after the first pass
  have hp : es.reverse <+: ds := by
    have h : es.reverse <+: ds.reverse.reverse := List.reverse_prefix.2 (List.dropWhile_suffix _)
    rwa [List.reverse_reverse] at h
  have hd : es.reverse.dropWhile isBlank = es.reverse := by
    refine dropWhile_isBlank_eq_self fun c hc => head?_dropWhile_isBlank cs c ?_
    have ⟨t, ht⟩ := hp
    have hh : (es.reverse ++ t).head? = some c := by
      rw [List.head?_append, Option.mem_def.1 hc]
      rfl
    rwa [ht] at hh
  have he : es.dropWhile isBlank = es :=
    dropWhile_isBlank_eq_self (head?_dropWhile_isBlank _)
  change ((es.reverse.dropWhile isBlank).reverse.dropWhile isBlank).reverse = es.reverse
  rw [hd, List.reverse_reverse, he]

-- A mark at the end stays, and so do the blanks in front of it.
theorem trimChars_concat {cs : List Char} {c : Char} (h : isBlank c = false) :
    trimChars (cs ++ [c]) = cs.dropWhile isBlank ++ [c] := by
  have hn : [c].dropWhile isBlank = [c] := dropWhile_isBlank_eq_self (by simp [h])
  have hd : (cs ++ [c]).dropWhile isBlank = cs.dropWhile isBlank ++ [c] := by
    rw [List.dropWhile_append, hn]
    split
    · rename_i hc
      rw [List.isEmpty_iff.1 hc]
      rfl
    · rfl
  rw [trimChars, hd, List.reverse_concat, dropWhile_isBlank_eq_self (by simp [h]),
    ← List.reverse_concat, List.reverse_reverse]

theorem trimChars_dropWhile (cs : List Char) : trimChars (cs.dropWhile isBlank) = trimChars cs := by
  rw [trimChars, dropWhile_isBlank_eq_self (head?_dropWhile_isBlank cs), trimChars]

theorem length_trimChars_le (cs : List Char) :
    (trimChars cs).length ≤ (cs.dropWhile isBlank).length := by
  rw [trimChars, List.length_reverse]
  exact Nat.le_trans (List.dropWhile_suffix _).length_le (Nat.le_of_eq List.length_reverse)

theorem trimChars_eq_self_iff {cs : List Char} : trimChars cs = cs ↔
    (∀ c ∈ cs.head?, isBlank c = false) ∧ ∀ c ∈ cs.getLast?, isBlank c = false := by
  constructor
  · intro h
    have hl := length_trimChars_le cs
    rw [h] at hl
    have hd : cs.dropWhile isBlank = cs := (List.dropWhile_suffix _).eq_of_length_le hl
    constructor
    · exact hd ▸ head?_dropWhile_isBlank cs
    · rw [← h, trimChars, List.getLast?_reverse]
      exact head?_dropWhile_isBlank _
  · intro ⟨hf, hl⟩
    rw [trimChars, dropWhile_isBlank_eq_self hf, dropWhile_isBlank_eq_self (by rwa [List.head?_reverse]),
      List.reverse_reverse]

theorem trim_trim (s : String) : trim (trim s) = trim s := by
  simp [trim, trimChars_trimChars]

theorem isBlankText_trim_iff {s : String} : IsBlankText (trim s) ↔ IsBlankText s := by
  rw [← trim_eq_empty_iff, trim_trim, trim_eq_empty_iff]

end ModelAudit.Text

namespace ModelAudit.Text

def wordBound : Nat := 18446744073709551616

def digit (n : Nat) : Char :=
  Char.ofNat (48 + n % 10)

def numeral (n : Nat) : List Char :=
  if n < 10 then [digit n] else numeral (n / 10) ++ [digit n]

def addDigit (n : Nat) (c : Char) : Nat :=
  10 * n + (c.toNat - 48)

def natOfDigits (ds : List Char) : Nat :=
  ds.foldl addDigit 0

def natural (n : Nat) : String :=
  String.ofList (numeral n)

def dropPlus : List Char → List Char
  | '+' :: cs => cs
  | cs => cs

-- Zeros and one plus sign may stand in front.
def natural? (bound : Nat) (s : String) : Option Nat :=
  let ds := dropPlus s.toList
  if !ds.isEmpty && ds.all (·.isDigit) && natOfDigits ds < bound then some (natOfDigits ds)
  else none

theorem toNat_digit (n : Nat) : (digit n).toNat = 48 + n % 10 := by
  have h : ∀ k < 10, (Char.ofNat (48 + k)).toNat = 48 + k := by decide
  exact h _ (Nat.mod_lt n (by decide))

theorem isDigit_digit (n : Nat) : (digit n).isDigit = true := by
  have h := toNat_digit n
  simp only [Char.isDigit, Bool.and_eq_true, decide_eq_true_eq, ge_iff_le, UInt32.le_iff_toNat_le]
  change 48 ≤ (digit n).toNat ∧ (digit n).toNat ≤ 57
  omega

theorem natOfDigits_append_digit (ds : List Char) (n : Nat) :
    natOfDigits (ds ++ [digit n]) = 10 * natOfDigits ds + n % 10 := by
  simp [natOfDigits, addDigit, toNat_digit]

theorem natOfDigits_numeral (n : Nat) : natOfDigits (numeral n) = n := by
  fun_induction numeral n with
  | case1 n h => simp [natOfDigits, addDigit, toNat_digit, Nat.mod_eq_of_lt h]
  | case2 n h ih => rw [natOfDigits_append_digit, ih]; omega

theorem all_isDigit_numeral (n : Nat) : ∀ c ∈ numeral n, c.isDigit = true := by
  fun_induction numeral n with
  | case1 n h => simp [isDigit_digit]
  | case2 n h ih =>
    intro c hc
    rcases List.mem_append.1 hc with hc | hc
    · exact ih c hc
    · rw [List.mem_singleton.1 hc]; exact isDigit_digit n

theorem numeral_ne_nil (n : Nat) : numeral n ≠ [] := by
  fun_induction numeral n <;> simp

theorem length_numeral_pos (n : Nat) : 0 < (numeral n).length :=
  List.length_pos_iff.2 (numeral_ne_nil n)

-- No number but zero is written with a zero in front.
theorem head?_numeral_ne {n : Nat} (h : n ≠ 0) : (numeral n).head? ≠ some '0' := by
  fun_induction numeral n with
  | case1 n hn =>
    intro he
    have hd : digit n = '0' := by simpa using he
    have ht := toNat_digit n
    rw [hd] at ht
    have : '0'.toNat = 48 := rfl
    omega
  | case2 n hn ih =>
    rw [List.head?_append, Option.or_of_isSome (by simpa using numeral_ne_nil (n / 10))]
    exact ih (by omega)

theorem natOfDigits_append (ds es : List Char) :
    natOfDigits (ds ++ es) = es.foldl addDigit (natOfDigits ds) :=
  List.foldl_append

theorem natOfDigits_zeros_append (k : Nat) (ds : List Char) :
    natOfDigits (List.replicate k '0' ++ ds) = natOfDigits ds := by
  induction k with
  | zero => rfl
  | succ k ih => simpa [List.replicate_succ, natOfDigits, addDigit] using ih

theorem le_foldl_addDigit (ds : List Char) (n : Nat) : n ≤ ds.foldl addDigit n := by
  induction ds generalizing n with
  | nil => exact Nat.le_refl n
  | cons d ds ih =>
    refine Nat.le_trans ?_ (ih (addDigit n d))
    simp only [addDigit]
    omega

end ModelAudit.Text

import ModelAudit.Json.Reader.Number
import ModelAudit.Proofs.Decimal.Shortest
import ModelAudit.Proofs.Json.Reads

namespace ModelAudit.Json

open Text

variable {rest s t u ds : List Char} {negative : Bool} {d : Decimal} {x : Binary64}

theorem pow_length_numeral_le {n : Nat} (h : n ≠ 0) : 10 ^ ((numeral n).length - 1) ≤ n := by
  fun_induction numeral n
  case case1 => simpa using Nat.one_le_iff_ne_zero.mpr h
  case case2 n _ hi =>
    have hl := length_numeral_pos (n / 10)
    have hi := hi (by omega)
    have hp : 10 ^ (numeral (n / 10)).length = 10 * 10 ^ ((numeral (n / 10)).length - 1) := by
      rw [← Nat.pow_succ', Nat.succ_eq_add_one, Nat.sub_add_cancel hl]
    rw [List.length_append, List.length_singleton, Nat.add_sub_cancel, hp]
    omega

theorem natOfDigits_append_zeros (ds : List Char) (k : Nat) :
    natOfDigits (ds ++ List.replicate k '0') = natOfDigits ds * 10 ^ k := by
  induction k
  case zero => simp
  case succ k hi =>
    rw [List.replicate_succ', ← List.append_assoc, natOfDigits_append, hi, Nat.pow_succ,
      ← Nat.mul_assoc]
    simp [addDigit, Nat.mul_comm]

-- What may stand before the point: a single zero, or digits that do not start with one.
structure IsWhole (ds : List Char) : Prop where
  digits   : ∀ c ∈ ds, c.isDigit = true
  nonempty : ds ≠ []
  leading  : ds.head? = some '0' → ds = ['0']

namespace IsWhole

theorem zero : IsWhole ['0'] where
  digits   := by simp
  nonempty := by simp
  leading  := fun _ => rfl

theorem numeral (n : Nat) : IsWhole (numeral n) where
  digits   := all_isDigit_numeral n
  nonempty := numeral_ne_nil n
  leading h := by
    by_cases hn : n = 0
    case pos => subst hn; unfold Text.numeral; rfl
    case neg => exact absurd h <| head?_numeral_ne hn

theorem take (h : IsWhole ds) (k : Nat) : IsWhole (ds.take (k + 1)) where
  digits c hc := h.digits c <| List.mem_of_mem_take hc
  nonempty := by simpa using h.nonempty
  leading hh := by
    have hd : ds.head? = some '0' := by simpa [List.head?_take] using hh
    simp [h.leading hd]

-- Zeros can follow only where the digits are not a zero themselves.
theorem append_zeros (h : IsWhole ds) (hz : ds ≠ ['0']) (k : Nat) :
    IsWhole (ds ++ List.replicate k '0') where
  digits c hc := by
    rcases List.mem_append.mp hc with hc | hc
    · exact h.digits c hc
    · rw [List.eq_of_mem_replicate hc]; rfl
  nonempty := by simp [h.nonempty]
  leading hh := by
    rw [List.head?_append, Option.or_of_isSome (by simpa using h.nonempty)] at hh
    exact absurd (h.leading hh) hz

end IsWhole

theorem reads_wholeDigits (h : IsWhole ds) (hs : Stops (·.isDigit) rest) :
    Reads wholeDigits (ds ++ rest) ds rest := by
  match ds, h with
  | [], h => exact absurd rfl h.nonempty
  | c :: cs, h =>
    by_cases hc : c = '0'
    case pos =>
      obtain ⟨rfl, rfl⟩ : '0' = c ∧ cs = [] := by simpa [hc] using h.leading (by simp [hc])
      cases rest
      case nil => exact ⟨_, rfl⟩
      case cons d rest =>
        refine ⟨_, if_neg ?_⟩
        simpa using hs d rfl
    case neg =>
      have hr := reads_digits (fun d hd => h.digits d <| .tail c hd) hs
      rw [List.cons_append]
      refine hr.resumeMap (f := (c :: ·)) (h := List.suffix_cons _ _) ?_
      rw [wholeDigits]
      · exact if_pos <| h.digits c <| .head cs
      · simpa using hc

-- What ends a number wherever it stands.
def goesOn (c : Char) : Bool :=
  c.isDigit || c == '.' || c == 'e' || c == 'E'

theorem Stops.of_goesOn {kind : Char → Bool} (h : Stops goesOn rest)
    (hk : ∀ c, kind c = true → goesOn c = true) : Stops kind rest := by
  intro c hc
  by_contra hn
  have := hk c (by simpa using hn)
  simp [h c hc] at this

theorem Stops.digits (h : Stops goesOn rest) : Stops (·.isDigit) rest :=
  h.of_goesOn fun c hc => by simp [goesOn, hc]

theorem Stops.point (h : Stops goesOn rest) : Stops (· == '.') rest :=
  h.of_goesOn fun c hc => by simp_all [goesOn]

theorem reads_noFraction (h : Stops (· == '.') rest) : Reads fractionDigits rest none rest := by
  cases rest
  case nil => exact ⟨_, rfl⟩
  case cons c rest =>
    have hc : c ≠ '.' := by simpa using h c rfl
    refine ⟨List.suffix_refl _, ?_⟩
    rw [fractionDigits]
    rintro _ ⟨⟩
    exact hc rfl

theorem reads_fraction (hd : ∀ c ∈ ds, c.isDigit = true) (hn : ds ≠ []) (hs : Stops (·.isDigit) rest) :
    Reads fractionDigits ('.' :: ds ++ rest) (some ds) rest := by
  have ht := takeWhile_append_of_stops hd hs
  rw [List.cons_append]
  refine (reads_digits hd hs).resumeMap (f := some) (h := List.suffix_cons _ _) ?_
  simp only [fractionDigits, ht]
  exact if_neg <| by simpa using hn

theorem reads_zeroFraction (h : Stops (·.isDigit) rest) :
    Reads fractionDigits ('.' :: '0' :: rest) (some ['0']) rest :=
  have hd : ∀ c ∈ ['0'], c.isDigit = true := by simp
  reads_fraction hd nofun h

theorem reads_exponentDigits {bounded : Bool} {n : Nat} (hd : ∀ c ∈ ds, c.isDigit = true)
    (hb : bounded = true → ds.foldl addDigit n ≤ largestExponent) (hs : Stops (·.isDigit) rest) :
    Reads (exponentDigits bounded n) (ds ++ rest) (ds.foldl addDigit n) rest := by
  induction ds generalizing n
  case nil =>
    cases rest
    case nil => exact ⟨_, rfl⟩
    case cons c rest => exact ⟨_, if_neg <| by simpa using hs c rfl⟩
  case cons d ds hi =>
    rw [List.cons_append]
    refine (hi (fun c hc => hd c <| .tail d hc) hb).resume (h := List.suffix_cons _ _) ?_
    rw [exponentDigits, if_pos <| hd d <| .head ds, if_neg]
    intro h
    have ⟨hbd, hl⟩ : bounded = true ∧ largestExponent < addDigit n d := by simpa using h
    have := le_foldl_addDigit ds (addDigit n d)
    have := hb hbd
    simp only [List.foldl_cons] at this
    omega

theorem reads_exponentValue {bounded : Bool} {n : Nat} (hb : bounded = true → n ≤ largestExponent)
    (hs : Stops (·.isDigit) rest) : Reads (exponentValue bounded) (numeral n ++ rest) n rest := by
  have hv := natOfDigits_numeral n
  have hd := all_isDigit_numeral n
  cases hn : numeral n
  case nil => exact absurd hn <| numeral_ne_nil n
  case cons c cs =>
    rw [hn] at hv hd
    have hv : cs.foldl addDigit (addDigit 0 c) = n := hv
    have hr : Reads (exponentDigits bounded (addDigit 0 c)) (cs ++ rest) _ rest :=
      reads_exponentDigits (fun d h => hd d <| .tail c h) (fun h => hv.trans_le <| hb h) hs
    rw [hv] at hr
    exact hr.resume (if_pos <| hd c <| .head cs)

-- The exponent as it is written, and what it is read as.
theorem reads_exponent {lead : Int} {bounded : Bool} (hl : lead ≤ largestExponent)
    (hs : Stops (·.isDigit) rest) :
    Reads (exponentPart bounded)
      ('e' :: (if lead < 0 then '-' else '+') :: numeral lead.natAbs ++ rest) (some lead) rest := by
  have hr : Reads (signedExponent bounded)
      ((if lead < 0 then '-' else '+') :: numeral lead.natAbs ++ rest) lead rest := by
    by_cases h : lead < 0
    case pos =>
      have hr : Reads (exponentValue false) (numeral lead.natAbs ++ rest) lead.natAbs rest :=
        reads_exponentValue nofun hs
      rw [if_pos h, show lead = -(lead.natAbs : Int) by omega, Int.natAbs_neg, Int.natAbs_natCast]
      exact hr.resumeMap (f := fun n : Nat => -(n : Int)) rfl
    case neg =>
      have hr : Reads (exponentValue bounded) (numeral lead.natAbs ++ rest) lead.natAbs rest :=
        reads_exponentValue (fun _ => by omega) hs
      have hr := hr.resumeMap (r := signedExponent bounded) (f := Int.ofNat)
        (s := '+' :: (numeral lead.natAbs ++ rest)) rfl
      rw [if_neg h]
      rwa [show Int.ofNat lead.natAbs = lead by simp only [Int.ofNat_eq_natCast]; omega] at hr
  rw [List.cons_append]
  refine hr.resumeMap (f := some) (h := List.suffix_cons _ _) ?_
  rw [exponentPart]
  exact if_pos <| .inl rfl

theorem reads_noExponent {bounded : Bool} (h : Stops goesOn rest) :
    Reads (exponentPart bounded) rest none rest := by
  cases rest
  case nil => exact ⟨_, rfl⟩
  case cons c rest =>
    refine ⟨_, if_neg ?_⟩
    have := h c rfl
    simp only [goesOn, Bool.or_eq_false_iff, beq_eq_false_iff_ne] at this
    tauto

-- A number with a point or an exponent is the member of the format that its decimal is nearest to.
theorem reads_float {whole : List Char} {fraction : Option (List Char)} {exponent : Option Int}
    (hw : Reads wholeDigits s whole t) (hf : Reads fractionDigits t fraction u)
    (he : ∀ bounded, bounded = decide (natOfDigits (whole ++ fraction.getD []) ≠ 0) →
      Reads (exponentPart bounded) u exponent rest)
    (hm : fraction ≠ none ∨ exponent ≠ none)
    (hx : Binary64.ofDecimal? negative
      ⟨natOfDigits (whole ++ fraction.getD []), exponent.getD 0 - (fraction.getD []).length⟩ = some x) :
    Reads (numberBody negative) s (.float x) rest := by
  unfold numberBody
  refine hw.bind ?_
  refine hf.bind ?_
  refine (he _ rfl).bind ?_
  split
  · simp at hm
  · rw [hx]
    exact .pure _ _

theorem reads_int {n : Int} (hi : integer? negative n.natAbs = some n) (hs : Stops goesOn rest) :
    Reads (numberBody negative) (numeral n.natAbs ++ rest) (.int n) rest := by
  unfold numberBody
  refine (reads_wholeDigits (.numeral _) hs.digits).bind ?_
  refine (reads_noFraction hs.point).bind ?_
  refine (reads_noExponent hs).bind ?_
  simp only [Option.getD_none, List.append_nil, natOfDigits_numeral, hi]
  exact .pure _ _

-- The power of ten of the leading digit.
def lead (d : Decimal) : Int :=
  ((numeral d.digits).length : Int) - 1 + d.exponent

-- The leading digit alone makes a number that large.
theorem scale_le_of_length {bits e f l n : Nat} (hn : 10 ^ l ≤ n) (hl : bits + e ≤ l + f) :
    2 ^ bits * 10 ^ e ≤ n * 10 ^ f :=
  calc 2 ^ bits * 10 ^ e
      ≤ 10 ^ bits * 10 ^ e := Nat.mul_le_mul_right _ <| Nat.pow_le_pow_left (by decide) bits
    _ = 10 ^ (bits + e)    := (Nat.pow_add ..).symm
    _ ≤ 10 ^ (l + f)       := Nat.pow_le_pow_right (by decide) hl
    _ = 10 ^ l * 10 ^ f    := Nat.pow_add ..
    _ ≤ n * 10 ^ f         := Nat.mul_le_mul_right _ hn

-- A decimal that the format can hold is small enough for its exponent to be read.
theorem lead_lt (h : Binary64.ofDecimal? negative d = some x) (hx : x.magnitude ≠ 0) :
    lead d < 1025 := by
  have ⟨hd, hf⟩ := Binary64.ofFraction?_of_ofDecimal? h hx
  have hb := Binary64.lt_of_ofFraction? (Binary64.decimalFraction_num_ne_zero hd)
    (Binary64.decimalFraction_den_pos d) hf
  by_contra hl
  have hp := length_numeral_pos d.digits
  refine absurd hb <| Nat.not_lt.mpr <| scale_le_of_length (pow_length_numeral_le hd) ?_
  unfold lead at hl
  omega

-- Digits, the zeros that the exponent stands for, and a zero behind the point.
theorem reads_plain (h : Binary64.ofDecimal? negative d = some x) (hx : x.magnitude ≠ 0)
    (hs : Stops goesOn rest) (he : 0 ≤ d.exponent) (hl : lead d < firstMarkedExponent) :
    Reads (numberBody negative)
      (numeral d.digits ++ List.replicate d.exponent.toNat '0' ++ '.' :: '0' :: rest) (.float x) rest := by
  have hd := (Binary64.ofFraction?_of_ofDecimal? h hx).1
  have hp := length_numeral_pos d.digits
  have hz : numeral d.digits ≠ ['0'] := fun hz => head?_numeral_ne hd (by simp [hz])
  refine reads_float
    (reads_wholeDigits ((IsWhole.numeral d.digits).append_zeros hz _) (.cons rfl _))
    (reads_zeroFraction hs.digits) (fun _ _ => reads_noExponent hs)
    (by simp) ?_
  have hk : d.exponent.toNat ≤ 310 := by
    unfold lead firstMarkedExponent at hl
    omega
  have hv : natOfDigits (numeral d.digits ++ List.replicate d.exponent.toNat '0' ++ ['0']) =
      d.digits * 10 ^ (d.exponent.toNat + 1) := by
    rw [List.append_assoc, show ['0'] = List.replicate 1 '0' from rfl, List.replicate_append_replicate,
      natOfDigits_append_zeros, natOfDigits_numeral]
  simp only [Option.getD_some, Option.getD_none, hv, List.length_singleton]
  exact (Binary64.ofDecimal?_tenth negative hd hk).trans <| by rwa [Int.toNat_of_nonneg he]

-- The point stands among the digits.
theorem reads_split (h : Binary64.ofDecimal? negative d = some x) (hs : Stops goesOn rest)
    (he : d.exponent < 0) (hl : 0 ≤ lead d) :
    Reads (numberBody negative)
      ((numeral d.digits).take ((lead d).toNat + 1) ++
        '.' :: (numeral d.digits).drop ((lead d).toNat + 1) ++ rest) (.float x) rest := by
  have hn : (lead d).toNat + 1 < (numeral d.digits).length := by
    unfold lead at hl ⊢
    omega
  rw [List.append_assoc]
  refine reads_float
    (reads_wholeDigits ((IsWhole.numeral d.digits).take _) (.cons rfl _))
    (reads_fraction (fun c hc => all_isDigit_numeral _ c <| List.mem_of_mem_drop hc)
      (by simpa using hn) hs.digits) (fun _ _ => reads_noExponent hs) (by simp) ?_
  simp only [Option.getD_some, Option.getD_none, List.take_append_drop, natOfDigits_numeral,
    List.length_drop]
  convert h using 3
  unfold lead at hl hn ⊢
  omega

-- Zeros stand between the point and the digits.
theorem reads_small (h : Binary64.ofDecimal? negative d = some x) (hs : Stops goesOn rest)
    (hl : lead d < 0) :
    Reads (numberBody negative)
      ('0' :: '.' :: List.replicate (-lead d - 1).toNat '0' ++ numeral d.digits ++ rest)
      (.float x) rest := by
  have hp := length_numeral_pos d.digits
  rw [List.append_assoc, List.cons_append, ← List.singleton_append]
  have hf : ∀ c ∈ List.replicate (-lead d - 1).toNat '0' ++ numeral d.digits, c.isDigit = true := by
    intro c hc
    rcases List.mem_append.mp hc with hc | hc
    · rw [List.eq_of_mem_replicate hc]; rfl
    · exact all_isDigit_numeral _ c hc
  have hr := reads_fraction hf (by simp [numeral_ne_nil]) hs.digits
  rw [List.cons_append, List.append_assoc] at hr
  refine reads_float (reads_wholeDigits .zero (.cons rfl _)) hr (fun _ _ => reads_noExponent hs)
    (by simp) ?_
  have hv : natOfDigits (['0'] ++ (List.replicate (-lead d - 1).toNat '0' ++ numeral d.digits)) =
      d.digits := by
    rw [show ['0'] = List.replicate 1 '0' from rfl, natOfDigits_zeros_append,
      natOfDigits_zeros_append, natOfDigits_numeral]
  simp only [Option.getD_some, Option.getD_none, hv, List.length_append, List.length_replicate]
  convert h using 3
  unfold lead at hl ⊢
  omega

-- One digit stands before the point, and the exponent says where the point belongs.
theorem reads_marked (h : Binary64.ofDecimal? negative d = some x) (hx : x.magnitude ≠ 0)
    (hs : Stops goesOn rest) :
    Reads (numberBody negative)
      ((numeral d.digits).take 1 ++
        (if (numeral d.digits).length ≤ 1 then [] else '.' :: (numeral d.digits).drop 1) ++
        'e' :: (if lead d < 0 then '-' else '+') :: numeral (lead d).natAbs ++ rest)
      (.float x) rest := by
  have hl := lead_lt h hx
  have he (bounded : Bool) : Reads (exponentPart bounded)
      ('e' :: (if lead d < 0 then '-' else '+') :: numeral (lead d).natAbs ++ rest) (some (lead d))
      rest :=
    reads_exponent (by unfold largestExponent; omega) hs.digits
  have hi := (IsWhole.numeral d.digits).take 0
  have hw {u : List Char} (hu : Stops (·.isDigit) u) := reads_wholeDigits hi hu
  have hp := length_numeral_pos d.digits
  rw [List.append_assoc, List.append_assoc]
  by_cases hn : (numeral d.digits).length ≤ 1
  case pos =>
    have ht : (numeral d.digits).take 1 = numeral d.digits := List.take_of_length_le hn
    rw [if_pos hn, List.nil_append]
    refine reads_float (hw <| .cons rfl _) (reads_noFraction <| .cons rfl _) (fun b _ => he b)
      (by simp) ?_
    simp only [Option.getD_none, List.append_nil, ht, natOfDigits_numeral, Option.getD_some]
    convert h using 3
    simp only [lead, List.length_nil]
    omega
  case neg =>
    rw [if_neg hn]
    refine reads_float (hw <| .cons rfl _)
      (reads_fraction (fun c hc => all_isDigit_numeral _ c <| List.mem_of_mem_drop hc)
        (List.ne_nil_of_length_pos <| by rw [List.length_drop]; omega) (.cons rfl _))
      (fun b _ => he b) (by simp) ?_
    simp only [Option.getD_some, List.take_append_drop, natOfDigits_numeral, List.length_drop]
    convert h using 3
    unfold lead
    omega

-- The layouts, with the power of ten of the leading digit by its name.
theorem decimalChars_eq (d : Decimal) : decimalChars d =
    if leastPlainExponent ≤ lead d ∧ lead d < firstMarkedExponent then
      if 0 ≤ d.exponent then numeral d.digits ++ List.replicate d.exponent.toNat '0' ++ ['.', '0']
      else if 0 ≤ lead d then
        (numeral d.digits).take ((lead d).toNat + 1) ++ '.' :: (numeral d.digits).drop ((lead d).toNat + 1)
      else '0' :: '.' :: List.replicate (-lead d - 1).toNat '0' ++ numeral d.digits
    else
      (numeral d.digits).take 1 ++
        (if (numeral d.digits).length ≤ 1 then [] else '.' :: (numeral d.digits).drop 1) ++
        'e' :: (if lead d < 0 then '-' else '+') :: numeral (lead d).natAbs :=
  rfl

theorem reads_decimalChars (h : Binary64.ofDecimal? negative d = some x) (hx : x.magnitude ≠ 0)
    (hs : Stops goesOn rest) : Reads (numberBody negative) (decimalChars d ++ rest) (.float x) rest := by
  rw [decimalChars_eq]
  by_cases hl : leastPlainExponent ≤ lead d ∧ lead d < firstMarkedExponent
  case neg =>
    rw [if_neg hl]
    exact reads_marked h hx hs
  case pos =>
    rw [if_pos hl]
    split_ifs with he hz
    · rw [List.append_assoc]
      exact reads_plain h hx hs he hl.2
    · exact reads_split h hs (by omega) hz
    · exact reads_small h hs (by omega)

namespace Number

-- Whether a minus sign stands in front.
def isNegative : Number → Bool
  | .int n => decide (n < 0)
  | .float x => x.negative

-- What is written behind the sign.
def unsignedChars : Number → List Char
  | .int n => numeral n.natAbs
  | .float x => if x.magnitude = 0 then ['0', '.', '0'] else decimalChars x.shortest

-- An integer is kept as one only where it fits; every member of the format may stand as it is.
def InRange : Number → Prop
  | .int n => -(wordBound / 2 : Nat) ≤ n ∧ n < wordBound
  | .float _ => True

theorem chars_eq (n : Number) : n.chars = (if n.isNegative then ['-'] else []) ++ n.unsignedChars := by
  cases n
  case int n => simp [chars, isNegative, unsignedChars]
  case float x => rfl

end Number

theorem integer?_inRange {n : Nat} {i : Int} (h : integer? negative n = some i) :
    (Number.int i).InRange := by
  unfold integer? at h
  unfold Number.InRange
  split at h
  · split at h <;> cases h
    omega
  · split at h <;> cases h
    omega

theorem numberBody_yields (negative : Bool) : Yields (numberBody negative) Number.InRange := by
  unfold numberBody
  refine (Yields.trivial _).bind fun whole _ => ?_
  refine (Yields.trivial _).bind fun fraction _ => ?_
  refine (Yields.trivial _).bind fun exponent _ => ?_
  split
  · rename_i hi
    exact .pure <| integer?_inRange hi
  · split
    · exact .pure True.intro
    · nofun

theorem integer?_natAbs {n : Int} (h : (Number.int n).InRange) :
    integer? (Number.int n).isNegative n.natAbs = some n := by
  have ⟨hl, hu⟩ := h
  unfold integer? Number.isNegative
  by_cases hn : n < 0
  case pos => simp only [hn, decide_true, if_true]; rw [if_pos (by omega)]; congr 1; omega
  case neg => simp only [hn, decide_false]; rw [if_neg (by simp), if_pos (by omega)]; congr 1; omega

-- A number that was written is read as itself.
theorem reads_numberBody {n : Number} (hn : n.InRange) (hs : Stops goesOn rest) :
    Reads (numberBody n.isNegative) (n.unsignedChars ++ rest) n rest := by
  cases n
  case int n => exact reads_int (integer?_natAbs hn) hs
  case float x =>
    by_cases hx : x.magnitude = 0
    case neg =>
      rw [Number.unsignedChars, if_neg hx]
      exact reads_decimalChars (Binary64.ofDecimal?_shortest hx) hx hs
    case pos =>
      rw [Number.unsignedChars, if_pos hx, show ['0', '.', '0'] = ['0'] ++ ['.', '0'] from rfl,
        List.append_assoc]
      refine reads_float (reads_wholeDigits .zero (.cons rfl _))
        (reads_zeroFraction hs.digits) (fun _ _ => reads_noExponent hs)
        (by simp) ?_
      obtain ⟨_, _, _⟩ := x
      subst hx
      rfl

-- What is read as a number, apart from its sign, starts with a digit.
theorem digit_of_reads {n : Number} (h : Reads (numberBody negative) s n rest) :
    ∃ c t, s = c :: t ∧ c.isDigit = true := by
  cases s
  case nil => cases h.choose_spec
  case cons c t =>
    have ⟨_, hr⟩ := h
    refine ⟨c, t, rfl, ?_⟩
    by_contra hc
    have hz : c ≠ '0' := by rintro rfl; exact hc rfl
    have hw : wholeDigits (c :: t) = .error (.next .invalidNumber (c :: t)) := by
      rw [wholeDigits]
      · exact if_neg hc
      · exact hz
    simp only [numberBody, Bind.bind, Reader.bind, hw] at hr
    cases hr

theorem Number.digit_unsignedChars {n : Number} (h : n.InRange) :
    ∃ c t, n.unsignedChars = c :: t ∧ c.isDigit = true :=
  digit_of_reads <| List.append_nil n.unsignedChars ▸ reads_numberBody h (Stops.nil goesOn)

end ModelAudit.Json

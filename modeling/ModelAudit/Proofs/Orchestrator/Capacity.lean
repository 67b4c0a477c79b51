import ModelAudit.Check.Catalog
import ModelAudit.Orchestrator.State
import Mathlib.Algebra.Ring.Nat
import Mathlib.Data.List.TakeWhile
import Mathlib.Data.Nat.Log

namespace ModelAudit

namespace Text

-- Digits write a number; zeros and one plus sign may stand in front.
inductive Writes : List Char → Nat → Prop
  | digits {ds} (hn : ds ≠ []) (hd : ∀ c ∈ ds, c.isDigit = true) : Writes ds (natOfDigits ds)
  | plus {ds} (hn : ds ≠ []) (hd : ∀ c ∈ ds, c.isDigit = true) : Writes ('+' :: ds) (natOfDigits ds)

-- A numeral may have blanks around it.
def Shows (s : String) (n : Nat) : Prop :=
  ∃ before cs after, s.toList = before ++ cs ++ after ∧ (∀ c ∈ before, isBlank c = true) ∧
    (∀ c ∈ after, isBlank c = true) ∧ Writes cs n

section Trim

variable {cs before after : List Char}

theorem trimChars_append (hb : ∀ c ∈ before, isBlank c = true) (ha : ∀ c ∈ after, isBlank c = true) :
    trimChars (before ++ cs ++ after) = trimChars cs := by
  have ha' : ∀ c ∈ after.reverse, isBlank c = true := fun c hc => ha c <| List.mem_reverse.mp hc
  rw [List.append_assoc, trimChars, List.dropWhile_append_of_pos hb, List.dropWhile_append]
  split
  case isTrue he =>
    have he : cs.dropWhile isBlank = [] := List.isEmpty_iff.mp he
    rw [trimChars, he, dropWhile_isBlank_eq_nil_iff.mpr ha]
  case isFalse =>
    rw [List.reverse_append, List.dropWhile_append_of_pos ha', trimChars]

theorem exists_trimChars (cs : List Char) : ∃ before after, cs = before ++ trimChars cs ++ after ∧
    (∀ c ∈ before, isBlank c = true) ∧ ∀ c ∈ after, isBlank c = true := by
  have blank (ds : List Char) : ∀ c ∈ ds.takeWhile isBlank, isBlank c = true :=
    fun c hc => List.mem_takeWhile_imp hc
  let ds := cs.dropWhile isBlank
  refine ⟨cs.takeWhile isBlank, (ds.reverse.takeWhile isBlank).reverse, ?_, blank cs,
    fun c hc => blank ds.reverse c <| List.mem_reverse.mp hc⟩
  have hd : trimChars cs ++ (ds.reverse.takeWhile isBlank).reverse = ds := by
    rw [trimChars, ← List.reverse_append, List.takeWhile_append_dropWhile, List.reverse_reverse]
  rw [List.append_assoc, hd, List.takeWhile_append_dropWhile]

end Trim

section Numerals

variable {ds cs : List Char} {n bound : Nat} {s : String}

theorem isBlank_of_isDigit {c : Char} (h : c.isDigit = true) : isBlank c = false := by
  have h : 48 ≤ c.toNat ∧ c.toNat ≤ 57 := by
    simpa [Char.isDigit, UInt32.le_iff_toNat_le] using h
  simp only [isBlank, blankRanges, List.any_eq_false]
  simp
  omega

-- A numeral has no blanks at its ends.
theorem Writes.trimChars_eq (h : Writes cs n) : trimChars cs = cs := by
  cases h with
  | digits hn hd =>
    refine trimChars_eq_self_iff.mpr ⟨fun c hc => ?_, fun c hc => ?_⟩
    · exact isBlank_of_isDigit <| hd c <| List.mem_of_mem_head? hc
    · exact isBlank_of_isDigit <| hd c <| List.mem_of_mem_getLast? hc
  | plus hn hd =>
    refine trimChars_eq_self_iff.mpr ⟨fun c hc => ?_, fun c hc => ?_⟩
    · cases hc; rfl
    · rw [List.getLast?_cons_of_ne_nil hn] at hc
      exact isBlank_of_isDigit <| hd c <| List.mem_of_mem_getLast? hc

theorem dropPlus_of_isDigit (hd : ∀ c ∈ ds, c.isDigit = true) : dropPlus ds = ds := by
  unfold dropPlus
  split
  · cases hd '+' (.head _)
  · rfl

theorem writes_iff_dropPlus : Writes cs n ↔
    dropPlus cs ≠ [] ∧ (∀ c ∈ dropPlus cs, c.isDigit = true) ∧ natOfDigits (dropPlus cs) = n := by
  constructor
  case mp =>
    intro h
    cases h with
    | digits hn hd => rw [dropPlus_of_isDigit hd]; exact ⟨hn, hd, rfl⟩
    | plus hn hd => exact ⟨hn, hd, rfl⟩
  case mpr =>
    rintro ⟨hn, hd, rfl⟩
    by_cases hp : ∃ ds, cs = '+' :: ds
    case pos =>
      obtain ⟨ds, rfl⟩ := hp
      exact .plus hn hd
    case neg =>
      have he : dropPlus cs = cs := by
        unfold dropPlus
        split
        · exact absurd ⟨_, rfl⟩ hp
        · rfl
      rw [he] at hn hd ⊢
      exact .digits hn hd

theorem natural?_eq_some_iff : natural? bound s = some n ↔ Writes s.toList n ∧ n < bound := by
  simp only [natural?, writes_iff_dropPlus, Bool.and_eq_true, Bool.not_eq_true', List.isEmpty_eq_false_iff,
    List.all_eq_true, decide_eq_true_eq, Option.ite_none_right_eq_some, Option.some.injEq]
  constructor
  · rintro ⟨⟨⟨hn, hd⟩, hb⟩, rfl⟩
    exact ⟨⟨hn, hd, rfl⟩, hb⟩
  · rintro ⟨⟨hn, hd, rfl⟩, hb⟩
    exact ⟨⟨⟨hn, hd⟩, hb⟩, rfl⟩

theorem shows_iff : Shows s n ↔ Writes (trim s).toList n := by
  have htrim : (trim s).toList = trimChars s.toList := String.toList_ofList
  rw [htrim]
  constructor
  case mp =>
    rintro ⟨before, cs, after, hs, hb, ha, hw⟩
    rwa [hs, trimChars_append hb ha, hw.trimChars_eq]
  case mpr =>
    intro hw
    obtain ⟨before, after, hs, hb, ha⟩ := exists_trimChars s.toList
    exact ⟨before, _, after, hs, hb, ha, hw⟩

end Numerals

end Text

namespace Config

-- The number of events for which the environment asks.
inductive Asks (capacity : Option String) : Nat → Prop
  | given {text n} (h : capacity = some text) (hw : Text.Shows text n) (hn : n < Text.wordBound) :
    Asks capacity n
  | default (hn : ∀ text n, capacity = some text → Text.Shows text n → Text.wordBound ≤ n) :
    Asks capacity 64

theorem capacity?_eq_some_iff {text : String} {n : Nat} :
    capacity? text = some n ↔ Text.Shows text n ∧ n < Text.wordBound := by
  rw [capacity?, Text.natural?_eq_some_iff, Text.shows_iff]

theorem asks_iff {capacity : Option String} {n : Nat} :
    Asks capacity n ↔ n = (capacity.bind capacity?).getD 64 := by
  cases hc : capacity.bind capacity?
  case some m =>
    obtain ⟨text, rfl, ht⟩ := Option.bind_eq_some_iff.mp hc
    obtain ⟨hw, hb⟩ := capacity?_eq_some_iff.mp ht
    constructor
    case mp =>
      rintro (⟨⟨⟩, hw', hb'⟩ | hn)
      · exact Option.some.inj <| (capacity?_eq_some_iff.mpr ⟨hw', hb'⟩).symm.trans ht
      · exact absurd hb <| Nat.not_lt.mpr <| hn text m rfl hw
    case mpr =>
      rintro rfl
      exact .given rfl hw hb
  case none =>
    have hn {text : String} {m : Nat} (he : capacity = some text) (hw : Text.Shows text m) :
        Text.wordBound ≤ m := by
      refine Nat.not_lt.mp fun hb => ?_
      have ht := capacity?_eq_some_iff.mpr ⟨hw, hb⟩
      rw [he, Option.bind_some, ht] at hc
      cases hc
    constructor
    case mp =>
      rintro (⟨he, hw, hb⟩ | _)
      · exact absurd hb <| Nat.not_lt.mpr <| hn he hw
      · rfl
    case mpr =>
      rintro rfl
      exact .default fun _ _ => hn

end Config

namespace Channel

-- From one power of two on, those are passed over that are less than the number.
theorem roundUp_eq {n fuel k : Nat} (h : n ≤ 2 ^ (k + fuel)) :
    roundUp n fuel (2 ^ k) = 2 ^ max k (Nat.clog 2 n) := by
  induction fuel generalizing k
  case zero =>
    have hle : Nat.clog 2 n ≤ k := Nat.clog_le_of_le_pow h
    rw [roundUp, Nat.max_eq_left hle]
  case succ fuel hi =>
    rw [roundUp]
    split
    case isTrue hk => rw [Nat.max_eq_left <| Nat.clog_le_of_le_pow hk]
    case isFalse hk =>
      have hlt : k < Nat.clog 2 n := (Nat.lt_clog_iff_pow_lt Nat.one_lt_two).mpr <| Nat.lt_of_not_le hk
      have hle : n ≤ 2 ^ (k + 1 + fuel) := by rwa [Nat.add_right_comm]
      rw [← Nat.pow_succ', hi hle, Nat.max_eq_right hlt, Nat.max_eq_right hlt.le]

theorem create_of_le_maxSize {α : Type} {n : Nat} (hn : n ≠ 0) (h : n ≤ maxSize) :
    (create n : Except Refusal (Channel α)) =
      if maxSize < 2 ^ Nat.clog 2 n * slotSize then .error .tooLarge
      else .ok { capacity := 2 ^ Nat.clog 2 n } := by
  have hr : roundUp n 64 (2 ^ 0) = 2 ^ Nat.clog 2 n := by
    rw [roundUp_eq (h.trans <| by decide), Nat.max_eq_right <| Nat.zero_le _]
  rw [Nat.pow_zero] at hr
  rw [create, if_neg hn, if_neg <| Nat.not_lt.mpr h]
  dsimp only
  rw [hr]

-- A channel for no values is one for a single value.
theorem create_of_le {α : Type} {n : Nat} (h : n ≤ 2 ^ 56) :
    (create (max 1 n) : Except Refusal (Channel α)) = .ok { capacity := 2 ^ Nat.clog 2 n } := by
  have hmax : max 1 n ≤ 2 ^ 56 := Nat.max_le.mpr ⟨by decide, h⟩
  have hclog : Nat.clog 2 (max 1 n) = Nat.clog 2 n := by
    rcases Nat.eq_zero_or_pos n with rfl | hn
    · decide
    · rw [Nat.max_eq_right hn]
  have hpow : 2 ^ Nat.clog 2 n ≤ 2 ^ 56 := Nat.pow_le_pow_right Nat.two_pos <| Nat.clog_le_of_le_pow h
  have hfits : ¬maxSize < 2 ^ Nat.clog 2 n * slotSize := by
    unfold maxSize slotSize
    omega
  rw [create_of_le_maxSize (by omega) (hmax.trans <| by decide), hclog, if_neg hfits]

theorem create_of_lt {α : Type} {n : Nat} (h : 2 ^ 56 < n) (hn : n ≤ maxSize) :
    (create n : Except Refusal (Channel α)) = .error .tooLarge := by
  have hpow : 2 ^ 57 ≤ 2 ^ Nat.clog 2 n :=
    Nat.pow_le_pow_right Nat.two_pos <| (Nat.lt_clog_iff_pow_lt Nat.one_lt_two).mpr h
  have hlarge : maxSize < 2 ^ Nat.clog 2 n * slotSize := by
    unfold maxSize slotSize
    omega
  rw [create_of_le_maxSize (Nat.ne_zero_of_lt h) hn, if_pos hlarge]

theorem create_of_maxSize_lt {α : Type} {n : Nat} (h : maxSize < n) :
    (create n : Except Refusal (Channel α)) = .error .tooMany := by
  rw [create, if_neg (Nat.ne_zero_of_lt h), if_pos h]

end Channel

namespace Orchestrator

-- Whether there is an orchestrator depends on the number of events for which the environment asks.
structure Opens (o : Orchestrator) (capacity : Option String) : Prop where
  asks     : ∃! n, Config.Asks capacity n
  opened   : ∀ n, Config.Asks capacity n → n ≤ 2 ^ 56 →
    o.initial = .ok { channel := { capacity := 2 ^ Nat.clog 2 n } }
  tooLarge : ∀ n, Config.Asks capacity n → 2 ^ 56 < n → n ≤ Channel.maxSize →
    o.initial = .error .tooLarge
  tooMany  : ∀ n, Config.Asks capacity n → Channel.maxSize < n → o.initial = .error .tooMany

theorem initial_of_asks {runner : Runner} {display : Display} {capacity publish : Option String} {n : Nat}
    (h : Config.Asks capacity n) :
    ({ runner, display, config := .ofEnvironment capacity publish } : Orchestrator).initial =
      (Channel.create (max 1 n)).map fun channel => { channel } := by
  cases Config.asks_iff.mp h
  rw [initial, Config.ofEnvironment, ← Nat.max_assoc, Nat.max_self]

theorem opens_of_environment (runner : Runner) (display : Display) (capacity publish : Option String) :
    Opens { runner, display, config := .ofEnvironment capacity publish } capacity := by
  constructor
  case asks => exact ⟨_, Config.asks_iff.mpr rfl, fun n hn => Config.asks_iff.mp hn⟩
  case opened =>
    intro n hn hle
    rw [initial_of_asks hn, Channel.create_of_le hle]
    rfl
  case tooLarge =>
    intro n hn hlt hle
    rw [initial_of_asks hn, Nat.max_eq_right <| Nat.one_le_of_lt hlt, Channel.create_of_lt hlt hle]
    rfl
  case tooMany =>
    intro n hn hlt
    rw [initial_of_asks hn, Nat.max_eq_right <| Nat.one_le_of_lt hlt, Channel.create_of_maxSize_lt hlt]
    rfl

-- Half of what a word can count, and the largest number that a word holds.
theorem not_opened_for_half_a_word :
    let o (capacity : String) : Orchestrator :=
      { runner := Catalog.builtin.runner, config := .ofEnvironment (some capacity) none }
    (o "9223372036854775808").initial = .error .tooMany ∧
      (o "18446744073709551615").initial = .error .tooMany :=
  ⟨rfl, rfl⟩

end Orchestrator

end ModelAudit

import ModelAudit.Proofs.Orchestrator.Capacity
import ModelAudit.Token
import Mathlib.Data.List.Induction
import Mathlib.Data.Nat.Digits.Defs

namespace ModelAudit

namespace Text

-- The number that digits denote: each one is worth ten times as much as if it stood one place further behind.
def denoted (ds : List Char) : Nat :=
  Nat.ofDigits 10 <| ds.reverse.map fun d => d.toNat - '0'.toNat

variable {ds : List Char}

theorem natOfDigits_eq_denoted (ds : List Char) : natOfDigits ds = denoted ds := by
  induction ds using List.reverseRecOn
  case nil => rfl
  case append_singleton ds d hi =>
    have hd : denoted (ds ++ [d]) = (d.toNat - '0'.toNat) + 10 * denoted ds := by
      simp [denoted, Nat.ofDigits_cons]
    have hz : '0'.toNat = 48 := rfl
    rw [natOfDigits_append, hi, hd, hz, List.foldl_cons, List.foldl_nil, addDigit, Nat.add_comm]

theorem digit_eq_digitChar (n : Nat) : digit n = (n % 10).digitChar := by
  have h : ∀ k < 10, Char.ofNat (48 + k) = k.digitChar := by decide
  exact h _ <| Nat.mod_lt n (by decide)

theorem numeral_eq_toDigits (n : Nat) : numeral n = Nat.toDigits 10 n := by
  fun_induction numeral n
  case case1 n hn => rw [Nat.toDigits_of_lt_base hn, digit_eq_digitChar, Nat.mod_eq_of_lt hn]
  case case2 n hn hi =>
    rw [Nat.toDigits_of_base_le (by decide) (Nat.le_of_not_lt hn), hi, digit_eq_digitChar]

theorem natural?_of_digits (bound : Nat) (hn : ds ≠ []) (hd : ∀ d ∈ ds, d.isDigit = true) :
    natural? bound (String.ofList ds) = if denoted ds < bound then some (denoted ds) else none := by
  have he : ds.isEmpty = false := List.isEmpty_eq_false_iff.mpr hn
  have ha : ds.all (·.isDigit) = true := List.all_eq_true.mpr hd
  simp only [natural?, String.toList_ofList, dropPlus_of_isDigit hd, he, ha, natOfDigits_eq_denoted]
  simp

end Text

namespace Token

open Text (denoted)

-- The token is read where it is written, and nowhere else is the same written.
structure Legible (t : Token) : Prop where
  written : t.text = "trace-" ++ toString t.number
  read    : ofText? t.text = some t
  apart   : ∀ t' : Token, t'.text = t.text → t' = t

variable {t : Token} {ds cs : List Char}

theorem lead_append (cs : List Char) : "trace-" ++ String.ofList cs = String.ofList (lead ++ cs) := by
  rw [String.ofList_append]
  rfl

theorem text_eq (t : Token) : t.text = "trace-" ++ toString t.number := by
  rw [text, ← lead_append, Text.numeral_eq_toDigits, Nat.toString_eq_repr, Nat.repr_eq_ofList_toDigits]

theorem text_inj {t t' : Token} (h : t'.text = t.text) : t' = t := by
  have hl : lead ++ Text.numeral t'.number = lead ++ Text.numeral t.number := String.ofList_inj.mp h
  have hn : Text.natOfDigits (Text.numeral t'.number) = Text.natOfDigits (Text.numeral t.number) :=
    congrArg _ <| List.append_cancel_left hl
  rw [Text.natOfDigits_numeral, Text.natOfDigits_numeral] at hn
  exact congrArg mk hn

theorem ofText?_lead (cs : List Char) :
    ofText? ("trace-" ++ String.ofList cs) = (Text.natural? bound (String.ofList cs)).map mk := by
  rw [lead_append, ofText?, String.toList_ofList, List.take_left, if_pos rfl, List.drop_left]

theorem ofText?_digits (hn : ds ≠ []) (hd : ∀ d ∈ ds, d.isDigit = true) :
    ofText? ("trace-" ++ String.ofList ds) =
      if denoted ds < 2 ^ 64 then some ⟨denoted ds⟩ else none := by
  rw [ofText?_lead, Text.natural?_of_digits bound hn hd, apply_ite (Option.map mk)]
  rfl

theorem legible (ht : t.number < 2 ^ 64) : t.Legible where
  written := t.text_eq
  read    := ofText?_text ht
  apart   := fun _ => text_inj

theorem token_texts :
    (∀ t : Token, t.number < 2 ^ 64 → t.Legible) ∧
      ∀ ds : List Char, ds ≠ [] → (∀ d ∈ ds, d.isDigit = true) →
        ofText? ("trace-" ++ String.ofList ds) =
          if denoted ds < 2 ^ 64 then some ⟨denoted ds⟩ else none :=
  ⟨fun _ => legible, fun _ => ofText?_digits⟩

-- The last number that fits into a word, and the first one that does not.
theorem token_texts_at_the_bound :
    ofText? "trace-18446744073709551615" = some ⟨18446744073709551615⟩ ∧
      ofText? "trace-0018446744073709551615" = some ⟨18446744073709551615⟩ ∧
        ofText? "trace-18446744073709551616" = none := by
  have ⟨legible, digits⟩ := token_texts
  have hl := legible ⟨18446744073709551615⟩ (by decide)
  have hz := digits "0018446744073709551615".toList (by decide) <| List.all_eq_true.mp (by decide)
  have hb := digits "18446744073709551616".toList (by decide) <| List.all_eq_true.mp (by decide)
  have hw : Token.text ⟨18446744073709551615⟩ = "trace-18446744073709551615" := hl.written.trans (by decide)
  exact ⟨hw ▸ hl.read, hz.trans (by decide), hb.trans (by decide)⟩

end Token

end ModelAudit

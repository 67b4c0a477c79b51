import ModelAudit.Text.Numeral
import ModelAudit.Json.Layout

namespace ModelAudit

structure Token where
  number : Nat
deriving DecidableEq, Repr

namespace Token

def lead : List Char := ['t', 'r', 'a', 'c', 'e', '-']

def bound : Nat := Text.wordBound

def text (t : Token) : String :=
  String.ofList (lead ++ Text.numeral t.number)

def ofText? (s : String) : Option Token :=
  if s.toList.take lead.length = lead then
    (Text.natural? bound (String.ofList (s.toList.drop lead.length))).map Token.mk
  else none

def invalid (s : String) : String :=
  "invalid trace token: " ++ s

def toJson (t : Token) : Json :=
  .number (.int t.number)

def read : Json.Reader Token :=
  Token.mk <$> Json.readCount "u64"

theorem ofText?_text {t : Token} (h : t.number < bound) : ofText? t.text = some t := by
  have hne : ∀ c cs, Text.numeral t.number = c :: cs → c ≠ '+' := by
    intro c cs e hc
    have := Text.all_isDigit_numeral t.number c (by simp [e])
    simp [hc] at this
  have hd : Text.dropPlus (Text.numeral t.number) = Text.numeral t.number := by
    unfold Text.dropPlus
    split
    · rename_i cs e
      exact absurd rfl (hne _ _ e)
    · rfl
  have he : (Text.numeral t.number).isEmpty = false := by
    simpa using Text.numeral_ne_nil t.number
  have ha : (Text.numeral t.number).all (·.isDigit) = true := by
    simpa using Text.all_isDigit_numeral t.number
  simp [ofText?, text, lead, Text.natural?, hd, he, ha, Text.natOfDigits_numeral, h]

end Token

end ModelAudit

import ModelAudit.Json.Reader.Basic

namespace ModelAudit.Json

open Text (addDigit natOfDigits)

def wholeDigits : Reader (List Char)
  | [] => .error (.here .endOfValue [])
  | '0' :: t =>
    match t with
    | c :: u =>
      if c.isDigit then .error (.next .invalidNumber (c :: u))
      else .ok ⟨['0'], c :: u, List.suffix_cons _ _⟩
    | [] => .ok ⟨['0'], [], List.suffix_cons _ _⟩
  | c :: t =>
    if c.isDigit then
      resume (List.suffix_cons c t) ((digits t).map fun u => u.map (c :: ·))
    else .error (.next .invalidNumber (c :: t))

def fractionDigits : Reader (Option (List Char))
  | '.' :: t =>
    if (t.takeWhile (·.isDigit)).isEmpty then
      match t with
      | [] => .error (.here .endOfValue [])
      | t => .error (.next .invalidNumber t)
    else resume (List.suffix_cons _ t) ((digits t).map fun u => u.map some)
  | s => .ok ⟨none, s, List.suffix_refl s⟩

def largestExponent : Nat := 2147483647

-- A `bounded` exponent is no more than the largest.
def exponentDigits (bounded : Bool) (n : Nat) : Reader Nat
  | [] => .ok ⟨n, [], List.suffix_refl _⟩
  | c :: t =>
    if c.isDigit then
      if bounded && largestExponent < addDigit n c then .error (.here .numberOutOfRange t)
      else resume (List.suffix_cons c t) (exponentDigits bounded (addDigit n c) t)
    else .ok ⟨n, c :: t, List.suffix_refl _⟩

def exponentValue (bounded : Bool) : Reader Nat
  | [] => .error (.here .endOfValue [])
  | c :: t =>
    if c.isDigit then resume (List.suffix_cons c t) (exponentDigits bounded (addDigit 0 c) t)
    else .error (.next .invalidNumber (c :: t))

def signedExponent (bounded : Bool) : Reader Int
  | '-' :: t =>
    resume (List.suffix_cons _ t) ((exponentValue false t).map fun u => u.map fun n : Nat => -(n : Int))
  | '+' :: t =>
    resume (List.suffix_cons _ t) ((exponentValue bounded t).map fun u => u.map Int.ofNat)
  | s => (exponentValue bounded s).map fun u => u.map Int.ofNat

def exponentPart (bounded : Bool) : Reader (Option Int)
  | c :: t =>
    if c = 'e' ∨ c = 'E' then
      resume (List.suffix_cons c t) ((signedExponent bounded t).map fun u => u.map some)
    else .ok ⟨none, c :: t, List.suffix_refl _⟩
  | [] => .ok ⟨none, [], List.suffix_refl _⟩

-- There is no integer for a negative zero.
def integer? (negative : Bool) (n : Nat) : Option Int :=
  if negative then if 0 < n ∧ n ≤ Text.wordBound / 2 then some (-n) else none
  else if n < Text.wordBound then some n else none

-- Without a fraction and an exponent it is an integer, if it is in the range of integers.
def numberBody (negative : Bool) : Reader Number := do
  let whole ← wholeDigits
  let fraction ← fractionDigits
  let ds := natOfDigits (whole ++ fraction.getD [])
  let exponent ← exponentPart (decide (ds ≠ 0))
  match fraction, exponent, integer? negative ds with
  | none, none, some n => return .int n
  | _, _, _ =>
    match Binary64.ofDecimal? negative ⟨ds, exponent.getD 0 - (fraction.getD []).length⟩ with
    | some x => return .float x
    | none => Reader.failHere .numberOutOfRange

end ModelAudit.Json

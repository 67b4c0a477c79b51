import ModelAudit.Json.Value
import ModelAudit.Decimal.Shortest
import ModelAudit.Text.Numeral

namespace ModelAudit.Json

-- Numbers from `10 ^ -5` on, and below `10 ^ 16`, are written without an exponent.
def leastPlainExponent : Int := -5

def firstMarkedExponent : Int := 16

-- There is at least one digit on either side of a point, and an exponent always has a sign.
def decimalChars (d : Decimal) : List Char :=
  let ds := Text.numeral d.digits
  -- the power of ten of the leading digit
  let lead : Int := ds.length - 1 + d.exponent
  if leastPlainExponent ≤ lead ∧ lead < firstMarkedExponent then
    if 0 ≤ d.exponent then ds ++ List.replicate d.exponent.toNat '0' ++ ['.', '0']
    else if 0 ≤ lead then ds.take (lead.toNat + 1) ++ '.' :: ds.drop (lead.toNat + 1)
    else '0' :: '.' :: List.replicate (-lead - 1).toNat '0' ++ ds
  else
    let fraction := if ds.length ≤ 1 then [] else '.' :: ds.drop 1
    let sign := if lead < 0 then '-' else '+'
    ds.take 1 ++ fraction ++ 'e' :: sign :: Text.numeral lead.natAbs

def Number.chars : Number → List Char
  | .int n => (if n < 0 then ['-'] else []) ++ Text.numeral n.natAbs
  | .float x =>
    (if x.negative then ['-'] else []) ++
      (if x.magnitude = 0 then ['0', '.', '0'] else decimalChars x.shortest)

def hexDigit (n : Nat) : Char :=
  if n < 10 then Char.ofNat (48 + n) else Char.ofNat (87 + n)

def escapeChar (c : Char) : List Char :=
  match c with
  | '"' => ['\\', '"']
  | '\\' => ['\\', '\\']
  | '\x08' => ['\\', 'b']
  | '\x0c' => ['\\', 'f']
  | '\n' => ['\\', 'n']
  | '\r' => ['\\', 'r']
  | '\t' => ['\\', 't']
  | c =>
    if c.toNat < 0x20 then ['\\', 'u', '0', '0', hexDigit (c.toNat / 16), hexDigit (c.toNat % 16)]
    else [c]

def textChars (s : String) : List Char :=
  '"' :: s.toList.flatMap escapeChar ++ ['"']

mutual

def chars : Json → List Char
  | .null => ['n', 'u', 'l', 'l']
  | .bool true => ['t', 'r', 'u', 'e']
  | .bool false => ['f', 'a', 'l', 's', 'e']
  | .number n => n.chars
  | .text s => textChars s
  | .list [] => ['[', ']']
  | .list (x :: xs) => '[' :: chars x ++ tailChars xs
  | .object [] => ['\x7b', '\x7d']
  | .object ((k, x) :: ms) => '\x7b' :: textChars k ++ ':' :: chars x ++ memberChars ms

def tailChars : List Json → List Char
  | [] => [']']
  | x :: xs => ',' :: chars x ++ tailChars xs

def memberChars : List (String × Json) → List Char
  | [] => ['\x7d']
  | (k, x) :: ms => ',' :: textChars k ++ ':' :: chars x ++ memberChars ms

end

def compact (j : Json) : String :=
  String.ofList j.chars

def lineBreak (depth : Nat) : List Char :=
  '\n' :: List.replicate (2 * depth) ' '

mutual

def prettyChars (depth : Nat) : Json → List Char
  | .list (x :: xs) =>
    '[' :: lineBreak (depth + 1) ++ prettyChars (depth + 1) x ++ prettyTail depth xs
  | .object ((k, x) :: ms) =>
    '\x7b' :: lineBreak (depth + 1) ++ textChars k ++ ':' :: ' ' :: prettyChars (depth + 1) x ++
      prettyMembers depth ms
  | j => j.chars

def prettyTail (depth : Nat) : List Json → List Char
  | [] => lineBreak depth ++ [']']
  | x :: xs => ',' :: lineBreak (depth + 1) ++ prettyChars (depth + 1) x ++ prettyTail depth xs

def prettyMembers (depth : Nat) : List (String × Json) → List Char
  | [] => lineBreak depth ++ ['\x7d']
  | (k, x) :: ms =>
    ',' :: lineBreak (depth + 1) ++ textChars k ++ ':' :: ' ' :: prettyChars (depth + 1) x ++
      prettyMembers depth ms

end

def pretty (j : Json) : String :=
  String.ofList (prettyChars 0 j)

end ModelAudit.Json

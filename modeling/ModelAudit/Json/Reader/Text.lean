import ModelAudit.Json.Reader.Basic

namespace ModelAudit.Json

def hexValue? (c : Char) : Option Nat :=
  if c.isDigit then some (c.toNat - 48)
  else if 'a' ≤ c ∧ c ≤ 'f' then some (c.toNat - 87)
  else if 'A' ≤ c ∧ c ≤ 'F' then some (c.toNat - 55)
  else none

def hexEscape : Reader Nat := fun s =>
  match s with
  | a :: b :: c :: d :: t =>
    match hexValue? a, hexValue? b, hexValue? c, hexValue? d with
    | some a', some b', some c', some d' =>
      .ok ⟨((a' * 16 + b') * 16 + c') * 16 + d', t, ⟨[a, b, c, d], rfl⟩⟩
    | _, _, _, _ => .error (.ahead 4 .invalidEscape s)
  | s =>
    -- a character of several bytes counts as so many, and none of them is a digit
    if 4 ≤ byteCount s then .error (.ahead 4 .invalidEscape s) else .error (.here .endOfText [])

def isHighHalf (n : Nat) : Bool :=
  0xD800 ≤ n && n < 0xDC00

def isLowHalf (n : Nat) : Bool :=
  0xDC00 ≤ n && n < 0xE000

def lowHalf : Reader Nat
  | [] => .error (.here .endOfText [])
  | '\\' :: [] => .error (.here .endOfText [])
  | '\\' :: 'u' :: t => do
    let u ← resume ⟨['\\', 'u'], rfl⟩ (hexEscape t)
    if isLowHalf u.value then .ok u else .error (.here .loneSurrogate u.rest)
  | '\\' :: c :: t => .error (.next .endOfHexEscape (c :: t))
  | c :: t => .error (.next .endOfHexEscape (c :: t))

-- A character beyond the first 65536 may be written as a pair of numbers, which belong together.
def codePoint : Reader Char := do
  let n ← hexEscape
  if isLowHalf n then Reader.failHere .loneSurrogate
  else if isHighHalf n then
    let m ← lowHalf
    return Char.ofNat (0x10000 + (n - 0xD800) * 0x400 + (m - 0xDC00))
  else return Char.ofNat n

def escape? (c : Char) : Option Char :=
  match c with
  | '"' => some '"'
  | '\\' => some '\\'
  | '/' => some '/'
  | 'b' => some '\x08'
  | 'f' => some '\x0c'
  | 'n' => some '\n'
  | 'r' => some '\x0d'
  | 't' => some '\t'
  | _ => none

def escaped : Reader Char
  | [] => .error (.here .endOfText [])
  | c :: t =>
    if c = 'u' then resume (List.suffix_cons c t) (codePoint t)
    else match escape? c with
      | some e => .ok ⟨e, t, List.suffix_cons c t⟩
      | none => .error (.next .invalidEscape (c :: t))

def textTail (s : List Char) : Except Fault (Taken (List Char) s) :=
  match s with
  | [] => .error (.here .endOfText [])
  | c :: t =>
    if c = '"' then .ok ⟨[], t, List.suffix_cons c t⟩
    else if c = '\\' then
      match escaped t with
      | .error e => .error e
      | .ok u =>
        have := u.length_le
        resume (u.suffix.trans (List.suffix_cons c t))
          ((textTail u.rest).map fun v => v.map (u.value :: ·))
    else if c.toNat < 0x20 then .error (.next .controlCharacter (c :: t))
    else resume (List.suffix_cons c t) ((textTail t).map fun v => v.map (c :: ·))
termination_by s.length

def textBody : Reader String := fun s =>
  (textTail s).map fun u => u.map String.ofList

end ModelAudit.Json

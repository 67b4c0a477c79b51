import ModelAudit.Json.Reader.Value

namespace ModelAudit.Json

def skipExponent : Reader Unit := fun s =>
  let t := match s with
    | '+' :: t => t
    | '-' :: t => t
    | t => t
  have h : t <:+ s := by
    dsimp only [t]
    split
    · exact List.suffix_cons _ _
    · exact List.suffix_cons _ _
    · exact List.suffix_refl _
  if (t.head?.map (·.isDigit)).getD false then
    .ok ⟨(), t.dropWhile (·.isDigit), (List.dropWhile_suffix _).trans h⟩
  else .error (.next .invalidNumber t)

def skipExponentPart : Reader Unit
  | [] => Reader.pure () []
  | c :: t =>
    if c = 'e' ∨ c = 'E' then resume (List.suffix_cons c t) (skipExponent t)
    else Reader.pure () (c :: t)

def skipFraction : Reader Unit
  | '.' :: t =>
    if (t.takeWhile (·.isDigit)).isEmpty then .error (.next .invalidNumber t)
    else
      resume ((List.dropWhile_suffix _).trans (List.suffix_cons _ t))
        (skipExponentPart (t.dropWhile (·.isDigit)))
  | s => skipExponentPart s

def skipWhole (first : Char) : Reader Unit := fun t =>
  if first = '0' ∧ (t.head?.map (·.isDigit)).getD false then .error (.next .invalidNumber t)
  else Reader.bind digits (fun _ => skipFraction) t

def skipNumber : Reader Unit
  | [] => .error (.next .invalidNumber [])
  | c :: t =>
    if c.isDigit then resume (List.suffix_cons c t) (skipWhole c t)
    else .error (.next .invalidNumber (c :: t))

def skipEscape : Reader Unit
  | [] => .error (.here .endOfText [])
  | c :: t =>
    if c = 'u' then resume (List.suffix_cons c t) ((hexEscape t).map fun u => u.map fun _ => ())
    else if (escape? c).isSome then .ok ⟨(), t, List.suffix_cons c t⟩
    else .error (.next .invalidEscape (c :: t))

def skipText (s : List Char) : Except Fault (Taken Unit s) :=
  match s with
  | [] => .error (.here .endOfText [])
  | c :: t =>
    if c = '"' then .ok ⟨(), t, List.suffix_cons c t⟩
    else if c = '\\' then
      match skipEscape t with
      | .error e => .error e
      | .ok u =>
        have := u.length_le
        resume (u.suffix.trans (List.suffix_cons c t)) (skipText u.rest)
    else if c.toNat < 0x20 then .error (.here .controlCharacter (c :: t))
    else resume (List.suffix_cons c t) (skipText t)
termination_by s.length

inductive Bracket where
  | list
  | object
deriving DecidableEq, Repr

namespace Bracket

def closing : Bracket → Char
  | list => ']'
  | object => '\x7d'

def ended : Bracket → Reason
  | list => .endOfList
  | object => .endOfObject

def expectedEnd : Bracket → Reason
  | list => .expectedListEnd
  | object => .expectedObjectEnd

end Bracket

def skipName : Bracket → Reader Unit
  | .list => Reader.pure ()
  | .object => fun s =>
    match h : skipGap s with
    | [] => .error (.here .endOfObject [])
    | '"' :: t => resumePastGap h (Reader.bind skipText (fun _ => colon) t)
    | c :: t => .error (.next .keyNotText (c :: t))

def skipScalar (c : Char) (t : List Char) : Except Fault (Taken Unit t) :=
  if c = 'n' then letters () ['u', 'l', 'l'] t
  else if c = 't' then letters () ['r', 'u', 'e'] t
  else if c = 'f' then letters () ['a', 'l', 's', 'e'] t
  else if c = '-' then skipNumber t
  else if c = '"' then skipText t
  else if c.isDigit then skipWhole c t
  else .error (.next .expectedValue (c :: t))

def opening? (c : Char) : Option Bracket :=
  if c = '[' then some .list else if c = '\x7b' then some .object else none

mutual

def skipInto (around : List Bracket) (s : List Char) : Except Fault (Taken Unit s) :=
  match h : skipGap s with
  | [] => .error (.here .endOfValue [])
  | c :: t =>
    have := length_lt_of_skipGap_eq h
    have hs := suffix_of_skipGap_eq h
    match opening? c with
    | none =>
      match skipScalar c t with
      | .error e => .error e
      | .ok u =>
        have := u.length_le
        resume (u.suffix.trans hs) (skipOut around u.rest)
    | some b =>
      match h' : skipGap t with
      | [] => .error (.here b.ended [])
      | d :: v =>
        have := length_lt_of_skipGap_eq h'
        if d = b.closing then
          resume ((suffix_of_skipGap_eq h').trans hs) (skipOut around v)
        else
          match skipName b t with
          | .error e => .error e
          | .ok u =>
            have := u.length_le
            resume (u.suffix.trans hs) (skipInto (b :: around) u.rest)
termination_by s.length

def skipOut (around : List Bracket) (s : List Char) : Except Fault (Taken Unit s) :=
  match around with
  | [] => .ok ⟨(), s, List.suffix_refl s⟩
  | b :: around =>
    match h : skipGap s with
    | [] => .error (.here b.ended [])
    | c :: t =>
      have := length_lt_of_skipGap_eq h
      have hs := suffix_of_skipGap_eq h
      if c = b.closing then resume hs (skipOut around t)
      else if c = ',' then
        match skipName b t with
        | .error e => .error e
        | .ok u =>
          have := u.length_le
          resume (u.suffix.trans hs) (skipInto (b :: around) u.rest)
      else .error (.next b.expectedEnd (c :: t))
termination_by s.length

end

-- Nobody asks for the value, but it has to be well formed. Brackets may stand in it to any depth,
-- numbers may be of any size, and the halves of a pair may stand alone in its texts.
def skipValue : Reader Unit :=
  skipInto []

end ModelAudit.Json

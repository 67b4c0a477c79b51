import ModelAudit.Json.Skip

namespace ModelAudit.Json

variable {α : Type}

def refuseBehind (found : Found) (wanted : String) : Reader α :=
  Reader.failHere (.wrongType found wanted)

-- A value without parts is read to its end first, and the text may be at fault there as well.
def mismatch (wanted : String) : Reader α := fun s =>
  match s with
  | [] => .error (.here .endOfValue [])
  | c :: t =>
    let go (r : Reader α) := resume (List.suffix_cons c t) (r t)
    let refuse (found : Found) : Reader α := refuseBehind found wanted
    if c = 'n' then go (letters Found.null ['u', 'l', 'l'] >>= refuse)
    else if c = 't' then go (letters (Found.bool true) ['r', 'u', 'e'] >>= refuse)
    else if c = 'f' then go (letters (Found.bool false) ['a', 'l', 's', 'e'] >>= refuse)
    else if c = '-' then go (numberBody true >>= fun n => refuse (.number n))
    else if c.isDigit then (numberBody false >>= fun n => refuse (.number n)) (c :: t)
    else if c = '"' then go (textBody >>= fun x => refuse (.text x))
    else if c = '[' then .error (.here (.wrongType .list wanted) s)
    else if c = '\x7b' then .error (.here (.wrongType .object wanted) s)
    else .error (.next .expectedValue s)

def readText : Reader String :=
  afterGap fun s =>
    match s with
    | '"' :: t => resume (List.suffix_cons _ t) (textBody t)
    | s => mismatch "a string" s

def readFlag : Reader Bool :=
  afterGap fun s =>
    match s with
    | 't' :: t => resume (List.suffix_cons _ t) (letters true ['r', 'u', 'e'] t)
    | 'f' :: t => resume (List.suffix_cons _ t) (letters false ['a', 'l', 's', 'e'] t)
    | s => mismatch "a boolean" s

def countOf (wanted : String) : Number → Except Reason Nat
  | .int n => if n < 0 then .error (.wrongValue n wanted) else .ok n.toNat
  | .float x => .error (.wrongType (.number (.float x)) wanted)

def readCount (wanted : String) : Reader Nat :=
  afterGap fun s =>
    let go (n : Number) : Reader Nat :=
      match countOf wanted n with
      | .ok n => Reader.pure n
      | .error reason => Reader.failHere reason
    match s with
    | [] => .error (.here .endOfValue [])
    | c :: t =>
      if c = '-' then resume (List.suffix_cons c t) ((numberBody true >>= go) t)
      else if c.isDigit then (numberBody false >>= go) (c :: t)
      else mismatch wanted (c :: t)

def readNull : Reader Unit :=
  afterGap fun s =>
    match s with
    | 'n' :: t => resume (List.suffix_cons _ t) (letters () ['u', 'l', 'l'] t)
    | s => mismatch "unit" s

def readOptional (r : Reader α) : Reader (Option α) :=
  afterGap fun s =>
    match s with
    | 'n' :: t => resume (List.suffix_cons _ t) (letters none ['u', 'l', 'l'] t)
    | s => (some <$> r : Reader (Option α)) s

def readList (r : Reader α) : Reader (List α) :=
  afterGap fun s =>
    match s with
    | '[' :: t => resume (List.suffix_cons _ t) (listTail r t)
    | s => mismatch "a sequence" s

def readObject : Reader (List (String × Json)) :=
  afterGap fun s =>
    match s with
    | '\x7b' :: t =>
      -- the brace around the members counts as one of the brackets
      resume (List.suffix_cons _ t)
        (enclosed closeObject (members (addMember (value (maxDepth - 1))) []) t)
    | s => mismatch "a map" s

structure Field (α : Type) where
  name : String
  required : Bool
  read : Reader (α → α)

-- A record is an object whose members are the fields in any order, or a list of the fields in their own
-- order. Unknown members of an object are passed over.
structure Layout (α : Type) where
  title : String
  blank : α
  fields : List (Field α)

namespace Layout

def member (l : Layout α) (acc : List String × α) : Reader (List String × α) := do
  let name ← textBody
  match l.fields.find? (·.name == name) with
  | none =>
    colon
    skipValue
    return acc
  | some f =>
    if f.name ∈ acc.1 then Reader.failPending (.repeatedField f.name)
    else
      colon
      let change ← f.read
      return (f.name :: acc.1, change acc.2)

def missing? (l : Layout α) (seen : List String) : Option String :=
  (l.fields.find? fun f => f.required && !seen.contains f.name).map (·.name)

def readMembers (l : Layout α) : Reader α := do
  let (seen, record) ← members l.member ([], l.blank)
  match l.missing? seen with
  | some name => Reader.failPending (.missingField name)
  | none => return record

def lengthWanted (l : Layout α) : String :=
  l.title ++ " with " ++ Text.natural l.fields.length ++ " elements"

-- A list that ends leaves its bracket standing.
def nextItem (first : Bool) : Reader Bool := fun s =>
  match h : skipGap s with
  | [] => .error (.here .endOfList [])
  | ']' :: _ => .ok (behindGap false h)
  | c :: t =>
    if first then .ok (behindGap true h)
    else if c = ',' then
      match skipGap t with
      | [] => .error (.here .endOfValue [])
      | ']' :: u => .error (.next .trailingComma (']' :: u))
      | _ => .ok (pastGap true h)
    else .error (.next .expectedListEnd (c :: t))

def readItems (l : Layout α) : Nat → List (Field α) → α → Reader α
  | _, [], record => Reader.pure record
  | i, f :: fs, record => do
    if ← nextItem (i == 0) then
      let change ← f.read
      l.readItems (i + 1) fs (change record)
    else if f.required then Reader.failPending (.wrongLength i l.lengthWanted)
    else l.readItems (i + 1) fs record

def read (l : Layout α) : Reader α :=
  afterGap fun s =>
    match s with
    | '[' :: t =>
      resume (List.suffix_cons _ t) (enclosed closeList (l.readItems 0 l.fields l.blank) t)
    | '\x7b' :: t => resume (List.suffix_cons _ t) (enclosed closeObject l.readMembers t)
    | s => mismatch l.title s

end Layout

structure Alternative (α : Type) where
  name : String
  bare : Option α
  content : Reader α

def Alternative.plain (name : String) (value : α) : Alternative α where
  name := name
  bare := some value
  content := (fun _ => value) <$> readNull

def Alternative.withContent (name : String) (content : Reader α) : Alternative α where
  name := name
  bare := none
  content := content

def choose (known : List (Alternative α)) (name : String) : Reader (Alternative α) :=
  match known.find? (·.name == name) with
  | some a => Reader.pure a
  | none => Reader.failHere (.unknownName name (known.map (·.name)))

def readBare (known : List (Alternative α)) : Reader α := do
  let a ← textBody >>= choose known
  match a.bare with
  | some value => return value
  | none => Reader.failPending (.wrongType .bareName "newtype variant")

def closeContent : Reader Unit := fun s =>
  match h : skipGap s with
  | [] => .error (.here .endOfObject [])
  | '\x7d' :: _ => .ok (pastGap () h)
  | c :: t => .error (.here .expectedValue (c :: t))

def readName : Reader String :=
  afterGap fun s =>
    match s with
    | [] => .error (.here .endOfObject [])
    | '"' :: t => resume (List.suffix_cons _ t) (textBody t)
    | '\x7d' :: t => .error (.next .expectedValue ('\x7d' :: t))
    | c :: t => .error (.next .keyNotText (c :: t))

def readContent (known : List (Alternative α)) : Reader α := do
  let a ← readName >>= choose known
  colon
  let value ← a.content
  closeContent
  return value

def alternatives (known : List (Alternative α)) : Reader α :=
  afterGap fun s =>
    match s with
    | [] => .error (.here .endOfValue [])
    | '"' :: t => resume (List.suffix_cons _ t) (readBare known t)
    | '\x7b' :: t => resume (List.suffix_cons _ t) (readContent known t)
    | c :: t => .error (.next .expectedValue (c :: t))

end ModelAudit.Json

import ModelAudit.Json.Reader.Number
import ModelAudit.Json.Reader.Text

namespace ModelAudit.Json

-- A comma in front of the bracket is taken as well, although that is a fault.
def closeList (s : List Char) : Taken (Option Fault) s :=
  match h : skipGap s with
  | [] => ⟨some (.here .endOfList []), [], List.nil_suffix⟩
  | ']' :: _ => pastGap none h
  | ',' :: t =>
    have hl := (skipGap_suffix t).trans (suffix_of_skipGap_eq h)
    let reason := if (skipGap t).head? = some ']' then .trailingComma else .trailingCharacters
    ⟨some (.next reason (skipGap t)), skipGap t, hl⟩
  | c :: t => behindGap (some (.next .trailingCharacters (c :: t))) h

def closeObject (s : List Char) : Taken (Option Fault) s :=
  match h : skipGap s with
  | [] => ⟨some (.here .endOfObject []), [], List.nil_suffix⟩
  | '\x7d' :: _ => pastGap none h
  | ',' :: t => behindGap (some (.next .trailingComma (',' :: t))) h
  | c :: t => behindGap (some (.next .trailingCharacters (c :: t))) h

-- A fault without a place gets the one where reading stands when the bracket has been closed as far as
-- that is possible.
def enclosed {α : Type} (close : (s : List Char) → Taken (Option Fault) s) (inside : Reader α) :
    Reader α := fun s =>
  match inside s with
  | .error f => .error (f.settle fun left => (close left).rest)
  | .ok u =>
    let v := close u.rest
    match v.value with
    | some f => .error f
    | none => .ok ⟨u.value, v.rest, v.suffix.trans u.suffix⟩

def moreItems {σ : Type} (item : σ → Reader σ) (acc : σ) (s : List Char) :
    Except Fault (Taken σ s) :=
  match h : skipGap s with
  | [] => .error (.here .endOfList [])
  | ']' :: _ => .ok (behindGap acc h)
  | ',' :: t =>
    have := length_lt_of_skipGap_eq h
    match skipGap t with
    | [] => .error (.here .endOfValue [])
    | ']' :: u => .error (.next .trailingComma (']' :: u))
    | _ =>
      match item acc t with
      | .error e => .error e
      | .ok u =>
        have := u.length_le
        resume (u.suffix.trans (suffix_of_skipGap_eq h)) (moreItems item u.value u.rest)
  | c :: t => .error (.next .expectedListEnd (c :: t))
termination_by s.length

def items {σ : Type} (item : σ → Reader σ) (acc : σ) : Reader σ := fun s =>
  match h : skipGap s with
  | [] => .error (.here .endOfList [])
  | ']' :: _ => .ok (behindGap acc h)
  | _ => Reader.bind (item acc) (moreItems item) s

def moreMembers {σ : Type} (member : σ → Reader σ) (acc : σ) (s : List Char) :
    Except Fault (Taken σ s) :=
  match h : skipGap s with
  | [] => .error (.here .endOfObject [])
  | '\x7d' :: _ => .ok (behindGap acc h)
  | ',' :: t =>
    have := length_lt_of_skipGap_eq h
    match h' : skipGap t with
    | [] => .error (.here .endOfValue [])
    | '"' :: u =>
      match member acc u with
      | .error e => .error e
      | .ok v =>
        have := v.length_le
        have := length_lt_of_skipGap_eq h'
        resume ((v.suffix.trans (suffix_of_skipGap_eq h')).trans (suffix_of_skipGap_eq h))
          (moreMembers member v.value v.rest)
    | '\x7d' :: u => .error (.next .trailingComma ('\x7d' :: u))
    | c :: u => .error (.next .keyNotText (c :: u))
  | c :: t => .error (.next .expectedObjectEnd (c :: t))
termination_by s.length

-- `member` starts behind the opening quote of a name.
def members {σ : Type} (member : σ → Reader σ) (acc : σ) : Reader σ := fun s =>
  match h : skipGap s with
  | [] => .error (.here .endOfObject [])
  | '\x7d' :: _ => .ok (behindGap acc h)
  | '"' :: t => resumePastGap h (Reader.bind (member acc) (moreMembers member) t)
  | c :: t => .error (.next .keyNotText (c :: t))

def colon : Reader Unit := fun s =>
  match h : skipGap s with
  | [] => .error (.here .endOfObject [])
  | ':' :: _ => .ok (pastGap () h)
  | c :: t => .error (.next .expectedColon (c :: t))

def valueWith (list object : Reader Json) : Reader Json :=
  afterGap fun s =>
    match s with
    | [] => .error (.here .endOfValue [])
    | c :: t =>
      let go (r : Reader Json) := resume (List.suffix_cons c t) (r t)
      if c = 'n' then go (letters .null ['u', 'l', 'l'])
      else if c = 't' then go (letters (.bool true) ['r', 'u', 'e'])
      else if c = 'f' then go (letters (.bool false) ['a', 'l', 's', 'e'])
      else if c = '-' then go (Json.number <$> numberBody true)
      else if c.isDigit then (Json.number <$> numberBody false : Reader Json) (c :: t)
      else if c = '"' then go (Json.text <$> textBody)
      else if c = '[' then list (c :: t)
      else if c = '\x7b' then object (c :: t)
      else .error (.next .expectedValue (c :: t))

def behind {α : Type} (r : Reader α) : Reader α
  | [] => r []
  | c :: t => resume (List.suffix_cons c t) (r t)

def pushItem {α : Type} (item : Reader α) (acc : List α) : Reader (List α) :=
  (· :: acc) <$> item

def listTail {α : Type} (item : Reader α) : Reader (List α) :=
  enclosed closeList (List.reverse <$> items (pushItem item) [])

def addMember (value : Reader Json) (acc : List (String × Json)) :
    Reader (List (String × Json)) := do
  let name ← textBody
  colon
  return insert name (← value) acc

def value : Nat → Reader Json
  | 0 => valueWith (Reader.failNext .tooDeep) (Reader.failNext .tooDeep)
  | depth + 1 =>
    valueWith (behind (Json.list <$> listTail (value depth)))
      (behind (Json.object <$> enclosed closeObject (members (addMember (value depth)) [])))

def maxDepth : Nat := 127

def decode {α : Type} (r : Reader α) (text : String) : Except ReadError α :=
  match r text.toList with
  | .error f => .error (f.inText text.toList)
  | .ok u =>
    match skipGap u.rest with
    | [] => .ok u.value
    | left => .error ((Fault.next .trailingCharacters left).inText text.toList)

def parse (text : String) : Except ReadError Json :=
  decode (value maxDepth) text

end ModelAudit.Json

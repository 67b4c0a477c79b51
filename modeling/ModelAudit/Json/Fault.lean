import ModelAudit.Json.Printer
import ModelAudit.Text.Quoted

namespace ModelAudit.Json

inductive Found where
  | null
  | bool (b : Bool)
  | number (n : Number)
  | text (s : String)
  | list
  | object
  | bareName
deriving Repr

inductive Reason where
  | endOfValue
  | endOfList
  | endOfObject
  | endOfText
  | expectedValue
  | expectedIdent
  | expectedColon
  | expectedListEnd
  | expectedObjectEnd
  | trailingComma
  | keyNotText
  | trailingCharacters
  | invalidNumber
  | numberOutOfRange
  | controlCharacter
  | invalidEscape
  | loneSurrogate
  | endOfHexEscape
  | tooDeep
  | wrongType (found : Found) (wanted : String)
  | wrongValue (n : Int) (wanted : String)
  | wrongLength (length : Nat) (wanted : String)
  | missingField (name : String)
  | repeatedField (name : String)
  | unknownName (name : String) (known : List String)
  | refused (message : String)
deriving Repr

def marked (s : String) : String :=
  "\x60" ++ s ++ "\x60"

def Found.message : Found → String
  | .null => "null"
  | .bool b => "boolean " ++ marked (if b then "true" else "false")
  | .number (.int n) => "integer " ++ marked (String.ofList (Number.int n).chars)
  | .number (.float x) => "floating point " ++ marked (String.ofList (Number.float x).chars)
  | .text s => "string " ++ Text.quoted s
  | .list => "sequence"
  | .object => "map"
  | .bareName => "unit variant"

def oneOf : List String → String
  | [] => "nothing"
  | [a] => marked a
  | [a, b] => marked a ++ " or " ++ marked b
  | names => "one of " ++ ", ".intercalate (names.map marked)

def Reason.message : Reason → String
  | endOfValue => "EOF while parsing a value"
  | endOfList => "EOF while parsing a list"
  | endOfObject => "EOF while parsing an object"
  | endOfText => "EOF while parsing a string"
  | expectedValue => "expected value"
  | expectedIdent => "expected ident"
  | expectedColon => "expected " ++ marked ":"
  | expectedListEnd => "expected " ++ marked "," ++ " or " ++ marked "]"
  | expectedObjectEnd => "expected " ++ marked "," ++ " or " ++ marked "\x7d"
  | trailingComma => "trailing comma"
  | keyNotText => "key must be a string"
  | trailingCharacters => "trailing characters"
  | invalidNumber => "invalid number"
  | numberOutOfRange => "number out of range"
  | controlCharacter => "control character (\\u0000-\\u001F) found while parsing a string"
  | invalidEscape => "invalid escape"
  | loneSurrogate => "lone leading surrogate in hex escape"
  | endOfHexEscape => "unexpected end of hex escape"
  | tooDeep => "recursion limit exceeded"
  | wrongType found wanted => "invalid type: " ++ found.message ++ ", expected " ++ wanted
  | wrongValue n wanted =>
    "invalid value: " ++ (Found.number (.int n)).message ++ ", expected " ++ wanted
  | wrongLength length wanted => "invalid length " ++ Text.natural length ++ ", expected " ++ wanted
  | missingField name => "missing field " ++ marked name
  | repeatedField name => "duplicate field " ++ marked name
  | unknownName name known => "unknown variant " ++ marked name ++ ", expected " ++ oneOf known
  | refused message => message

def byteCount (cs : List Char) : Nat :=
  cs.foldl (fun n c => n + c.utf8Size) 0

-- Most faults know their place at once. One that concerns a whole record learns it only when the
-- brackets around the record have been closed as far as that is possible.
inductive Place where
  | before (bytes : Nat)
  | pending (left : List Char)

structure Fault where
  reason : Reason
  place : Place

-- The place is no further than the end of the text.
def Fault.ahead (bytes : Nat) (reason : Reason) (left : List Char) : Fault where
  reason := reason
  place := .before (byteCount left - bytes)

def Fault.here (reason : Reason) (left : List Char) : Fault :=
  .ahead 0 reason left

-- The place is behind the byte at the front of what is left.
def Fault.next (reason : Reason) (left : List Char) : Fault :=
  .ahead 1 reason left

def Fault.pending (reason : Reason) (left : List Char) : Fault where
  reason := reason
  place := .pending left

def Fault.settle (close : List Char → List Char) (f : Fault) : Fault :=
  match f.place with
  | .before _ => f
  | .pending left => .here f.reason (close left)

structure Position where
  line : Nat := 1
  column : Nat := 0
deriving DecidableEq, Repr

def Position.advance (p : Position) : Nat → List Char → Position
  | 0, _ => p
  | _, [] => p
  | n + 1, c :: cs =>
    if c = '\n' then advance ⟨p.line + 1, 0⟩ n cs
    else advance ⟨p.line, p.column + min (n + 1) c.utf8Size⟩ (n + 1 - c.utf8Size) cs

structure ReadError where
  reason : Reason
  position : Option Position
deriving Repr

def Fault.inText (text : List Char) (f : Fault) : ReadError where
  reason := f.reason
  position := match f.place with
    | .before bytes => some (Position.advance ⟨1, 0⟩ (byteCount text - bytes) text)
    | .pending _ => none

def ReadError.message (e : ReadError) : String :=
  match e.position with
  | none => e.reason.message
  | some p =>
    e.reason.message ++ " at line " ++ Text.natural p.line ++ " column " ++ Text.natural p.column

end ModelAudit.Json

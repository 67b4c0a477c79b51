import ModelAudit.Json.Layout
import ModelAudit.Text.Blank

namespace ModelAudit

structure Config where
  eventCapacity : Nat := 64
  publishProblems : Bool := true
deriving DecidableEq, Repr

namespace Config

open Json (Reason Found Layout)

def layout : Layout Config where
  title := "struct OrchestratorConfig"
  blank := {}
  fields :=
    [⟨"event_capacity", false, (fun n c => { c with eventCapacity := n }) <$> Json.readCount "usize"⟩,
      ⟨"publish_problems", false, (fun b c => { c with publishProblems := b }) <$> Json.readFlag⟩]

def toJson (c : Config) : Json :=
  .object
    [("event_capacity", .number (.int c.eventCapacity)), ("publish_problems", .bool c.publishProblems)]

def foundIn : Json → Found
  | .null => .null
  | .bool b => .bool b
  | .number n => .number n
  | .text s => .text s
  | .list _ => .list
  | .object _ => .object

def setCapacity (c : Config) : Json → Except Reason Config
  | .number n => (Json.countOf "usize" n).map fun n => { c with eventCapacity := n }
  | j => .error (.wrongType (foundIn j) "usize")

def setPublish (c : Config) : Json → Except Reason Config
  | .bool b => .ok { c with publishProblems := b }
  | j => .error (.wrongType (foundIn j) "a boolean")

def setMember (c : Config) (m : String × Json) : Except Reason Config :=
  if m.1 = "event_capacity" then c.setCapacity m.2
  else if m.1 = "publish_problems" then c.setPublish m.2
  else .ok c

def ofJson : Json → Except Reason Config
  | .object ms => ms.foldlM setMember {}
  | .list [] => .ok {}
  | .list [n] => setCapacity {} n
  | .list [n, b] => do (← setCapacity {} n).setPublish b
  | .list (n :: b :: rest) => do
    let _ ← (← setCapacity {} n).setPublish b
    .error (.wrongLength (rest.length + 2) "fewer elements in array")
  | j => .error (.wrongType (foundIn j) layout.title)

def lowerCase (c : Char) : Char :=
  if 'A' ≤ c ∧ c ≤ 'Z' then Char.ofNat (c.toNat + 32) else c

def flag? (s : String) : Option Bool :=
  let word := String.ofList ((Text.trimChars s.toList).map lowerCase)
  if word ∈ ["1", "true", "yes", "on"] then some true
  else if word ∈ ["0", "false", "no", "off"] then some false
  else none

def capacity? (s : String) : Option Nat :=
  Text.natural? Text.wordBound (Text.trim s)

-- Variables that make no sense are passed over, and there is always room for an event. Whether there
-- is a channel that large is another question.
def ofEnvironment (capacity publish : Option String) : Config where
  eventCapacity := max 1 ((capacity.bind capacity?).getD ({} : Config).eventCapacity)
  publishProblems := (publish.bind flag?).getD ({} : Config).publishProblems

def describe (c : Config) : String :=
  "OrchestratorConfig \x7b event_capacity: " ++ Text.natural c.eventCapacity ++
    ", publish_problems: " ++ (if c.publishProblems then "true" else "false") ++ " \x7d"

end Config

end ModelAudit

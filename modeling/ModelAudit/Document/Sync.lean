import ModelAudit.Text.Blank

namespace ModelAudit

inductive Sync.Direction where
  | send
  | receive
deriving DecidableEq, Repr

def Sync.Direction.mark : Sync.Direction → Char
  | send => '!'
  | receive => '?'

structure Sync where
  channel : String
  direction : Sync.Direction
deriving DecidableEq, Repr

namespace Sync

inductive LabelError where
  | noMark (label : String)
  | noChannel (label : String)
deriving DecidableEq, Repr

def LabelError.message : LabelError → String
  | noMark label => "synchronisation '" ++ label ++ "' must end in '!' or '?'"
  | noChannel label => "synchronisation '" ++ label ++ "' has no channel name"

def label (s : Sync) : String :=
  s.channel.push s.direction.mark

def Direction.ofMark? (c : Char) : Option Direction :=
  if c = send.mark then some send else if c = receive.mark then some receive else none

theorem Direction.ofMark?_mark (d : Direction) : ofMark? d.mark = some d := by
  cases d <;> rfl

def ofLabel? (written : String) : Except LabelError Sync :=
  let label := Text.trim written
  match label.toList.getLast?.bind Direction.ofMark? with
  | none => .error (.noMark label)
  | some direction =>
    let channel := Text.trim (String.ofList label.toList.dropLast)
    if channel = "" then .error (.noChannel label) else .ok ⟨channel, direction⟩

end Sync

end ModelAudit

namespace ModelAudit.CommandLine

inductive Argument where
  | word (text : String)
  | long (name : String) (value : Option String)
  | letters (cs : List Char)
  | mark
deriving DecidableEq, Repr

namespace Argument

def splitValue (cs : List Char) : Argument :=
  let name := cs.takeWhile (· != '=')
  match cs.drop name.length with
  | [] => long (String.ofList name) none
  | _ :: value => long (String.ofList name) (some (String.ofList value))

-- A single dash is a word.
def ofText (s : String) : Argument :=
  match s.toList with
  | ['-', '-'] => mark
  | '-' :: '-' :: cs => splitValue cs
  | '-' :: c :: cs => letters (c :: cs)
  | _ => word s

def isWord (s : String) : Bool :=
  match ofText s with
  | word _ => true
  | _ => false

end Argument

end ModelAudit.CommandLine

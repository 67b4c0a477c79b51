namespace ModelAudit.CommandLine

structure Failure where
  context : String
  causes : List String := []
deriving DecidableEq, Repr

namespace Failure

def indented (lead text : String) : String :=
  lead ++ ("\n" ++ "".pushn ' ' lead.length).intercalate (text.splitOn "\n")

-- Causes are counted from zero, and the numbers are set flush right.
def numbered (index : Nat) (cause : String) : String :=
  let digits := toString index
  "\n" ++ indented ("".pushn ' ' (5 - digits.length) ++ digits ++ ": ") cause

def render (f : Failure) : String :=
  "Error: " ++ f.context ++
    (match f.causes with
      | [] => ""
      | [cause] => "\n\nCaused by:\n" ++ indented "    " cause
      | causes => "\n\nCaused by:" ++ String.join (causes.mapIdx numbered)) ++ "\n"

end Failure

end ModelAudit.CommandLine

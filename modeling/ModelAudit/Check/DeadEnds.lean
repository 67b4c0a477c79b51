import ModelAudit.Check.Basic
import ModelAudit.Search

namespace ModelAudit.Check

-- A trace is looked for as long as none was found.
def deadEndsOf (traces : Bool) (t : Template) :
    List String → Option Trace → Checking (List String × Option Trace)
  | [], trace => pure ([], trace)
  | location :: locations, trace =>
    if (t.outgoing location).isEmpty then do
      let trace ←
        if trace.isNone && traces then do pure ((← t.pathTo location).map (Trace.ofEdges t))
        else pure trace
      let (names, trace) ← deadEndsOf traces t locations trace
      return (qualified t location :: names, trace)
    else deadEndsOf traces t locations trace

def deadEnds (traces : Bool) : List Template → Option Trace → Checking (List String × Option Trace)
  | [], trace => pure ([], trace)
  | t :: ts, trace => do
    Checking.poll
    let (names, trace) ← deadEndsOf traces t t.locations trace
    let (others, trace) ← deadEnds traces ts trace
    return (names ++ others, trace)

def deadEndRecord (c : Context) (names : List String) (trace : Option Trace) : Record :=
  let record := Record.violated "deadlock-locations"
    ("Deadlock locations found: " ++ ", ".intercalate names)
  match trace with
  | some trace => c.attachTrace record trace
  | none => record

def deadlockLocations : Check where
  name := "Deadlock locations"
  shortName := "deadlock-locations"
  run c := do
    let (names, trace) ← deadEnds c.checker.producesTraces c.document.templates none
    return if names.isEmpty then .passed "deadlock-locations" "No deadlock locations"
      else deadEndRecord c names trace

end ModelAudit.Check

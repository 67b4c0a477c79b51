import ModelAudit.Document.Format

namespace ModelAudit

open Json (Reader Layout readText readOptional readList)

structure Trace.Step where
  source : String
  target : String
  sync : Option String := none
deriving DecidableEq, Repr

structure Trace where
  template : String
  steps : List Trace.Step := []
deriving DecidableEq, Repr

namespace Trace

def ofEdges (t : Template) (path : List Edge) : Trace where
  template := t.name
  steps := path.map fun e => ⟨e.source, e.target, e.sync.map (·.label)⟩

def stepNumber (n : Nat) : String :=
  let digits := Text.numeral n
  String.ofList (List.replicate (3 - digits.length) ' ' ++ digits)

def Step.display (template : String) (number : Nat) (s : Step) : String :=
  "  " ++ stepNumber number ++ ". " ++ template ++ "." ++ s.source ++ " -> " ++ template ++ "." ++
    s.target ++ (match s.sync with | some label => " [" ++ label ++ "]" | none => "") ++ "\n"

def display (t : Trace) : String :=
  "trace through " ++ t.template ++ " (" ++ Text.natural t.steps.length ++ " step(s))\n" ++
    String.join (t.steps.mapIdx fun i s => s.display t.template (i + 1))

def Step.layout : Layout Step where
  title := "struct TraceStep"
  blank := { source := "", target := "" }
  fields :=
    [⟨"source", true, (fun x s => { s with source := x }) <$> readText⟩,
      ⟨"target", true, (fun x s => { s with target := x }) <$> readText⟩,
      ⟨"sync", false, (fun x s => { s with sync := x }) <$> readOptional readText⟩]

def Step.toJson (s : Step) : Json :=
  .object ([("source", .text s.source), ("target", .text s.target)] ++
    optionalMember "sync" (s.sync.map .text))

def layout : Layout Trace where
  title := "struct Trace"
  blank := { template := "" }
  fields :=
    [⟨"template", true, (fun x t => { t with template := x }) <$> readText⟩,
      ⟨"steps", true, (fun xs t => { t with steps := xs }) <$> readList Step.layout.read⟩]

def toJson (t : Trace) : Json :=
  .object [("template", .text t.template), ("steps", .list (t.steps.map Step.toJson))]

end Trace

end ModelAudit

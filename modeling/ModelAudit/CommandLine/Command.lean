import ModelAudit.CommandLine.Options

namespace ModelAudit.CommandLine

inductive Command where
  | run (model : String) (specification : Option String) (format : Format)
  | trace (model : String) (specification : Option String) (index : Nat)
  | checks
  | validate (specification : String)
deriving DecidableEq, Repr

abbrev Environment :=
  String → Option String

inductive Verb where
  | run
  | trace
  | checks
  | validate
deriving DecidableEq, Repr

namespace Verb

def all : List Verb :=
  [run, trace, checks, validate]

def name : Verb → String
  | run => "run"
  | trace => "trace"
  | checks => "checks"
  | validate => "validate"

def options : Verb → List Opt
  | run => [.model, .specification, .format]
  | trace => [.model, .specification, .index]
  | checks => []
  | validate => [.specification]

def command? (g : Given) : Verb → Option Command
  | run => do
    let model ← g.value? .model
    let format := ((g.value? .format).bind Format.ofName?).getD .text
    return .run model (g.value? .specification) format
  | trace => do
    let model ← g.value? .model
    let index ← (g.value? .index).bind (Text.natural? Text.wordBound)
    return .trace model (g.value? .specification) index
  | checks => some .checks
  | validate => Command.validate <$> g.value? .specification

end Verb

-- How much is logged changes no answer.
def commonOptions : List Opt :=
  [.verbose, .jsonLog, .help]

def readVerb (environment : Environment) (v : Verb) (args : List String) : Except Halt Command := do
  let (g, rest) ← takeOptions (v.options ++ commonOptions) [] args
  unless rest.isEmpty do throw .usage
  let g ← v.options.foldlM (fun g o => g.complete environment o) g
  match v.command? g with
  | some command => return command
  | none => throw .usage

def helpName : String := "help"

def readHelp (names : List String) : Halt :=
  match names with
  | [] => .help
  | [name] => if name = helpName ∨ name ∈ Verb.all.map Verb.name then .help else .usage
  | _ => .usage

def readArguments (environment : Environment) (args : List String) : Except Halt Command := do
  let (_, rest) ← takeOptions (.version :: commonOptions) [] args
  match rest with
  | [] => throw .usage
  | name :: args =>
    match Verb.all.find? (·.name == name) with
    | some v => readVerb environment v args
    | none => throw (if name = helpName then readHelp args else .usage)

end ModelAudit.CommandLine

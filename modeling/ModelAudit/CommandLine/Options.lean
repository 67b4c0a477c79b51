import ModelAudit.CommandLine.Argument
import ModelAudit.Config

namespace ModelAudit.CommandLine

inductive Opt where
  | verbose
  | jsonLog
  | model
  | specification
  | format
  | index
  | help
  | version
deriving DecidableEq, Repr

namespace Opt

def name : Opt → String
  | verbose => "verbose"
  | jsonLog => "json"
  | model => "model"
  | specification => "spec"
  | format => "format"
  | index => "index"
  | help => "help"
  | version => "version"

def letter? : Opt → Option Char
  | verbose => some 'v'
  | jsonLog => none
  | model => some 'm'
  | specification => some 's'
  | format => some 'f'
  | index => some 'i'
  | help => some 'h'
  | version => some 'V'

def takesValue : Opt → Bool
  | model | specification | format | index => true
  | verbose | jsonLog | help | version => false

-- The variable of the environment that is taken if the option is not given.
def environmentName? : Opt → Option String
  | model => some "SANITY_MODEL"
  | specification => some "SANITY_SPEC"
  | _ => none

end Opt

inductive Format where
  | text
  | json
deriving DecidableEq, Repr

namespace Format

def name : Format → String
  | text => "text"
  | json => "json"

def ofName? (s : String) : Option Format :=
  if s = text.name then some text else if s = json.name then some json else none

end Format

def Opt.accepts (o : Opt) (value : String) : Bool :=
  match o with
  | model | specification => value != ""
  | format => (Format.ofName? value).isSome
  | index => (Text.natural? Text.wordBound value).isSome
  | verbose | jsonLog | help | version => true

inductive Halt where
  | usage
  | help
  | version
deriving DecidableEq, Repr

abbrev Given :=
  List (Opt × String)

namespace Given

def value? (g : Given) (o : Opt) : Option String :=
  (g.find? (·.1 == o)).map (·.2)

def has (g : Given) (o : Opt) : Bool :=
  g.any (·.1 == o)

-- Asking for help or the version is answered at once.
def put (g : Given) (o : Opt) (value : String) : Except Halt Given :=
  match o with
  | .help => .error .help
  | .version => .error .version
  | o => if g.has o || !o.accepts value then .error .usage else .ok (g ++ [(o, value)])

def complete (g : Given) (environment : String → Option String) (o : Opt) :
    Except Halt Given :=
  if g.has o then .ok g
  else
    match o.environmentName?.bind environment with
    | some value => g.put o value
    | none => .ok g

end Given

-- An option that still wants its value is returned along.
def takeLetters (known : List Opt) : Given → List Char → Except Halt (Given × Option Opt)
  | g, [] => .ok (g, none)
  | g, c :: cs =>
    match known.find? (·.letter? == some c) with
    | none => .error .usage
    | some o =>
      if o.takesValue then
        match cs with
        | [] => .ok (g, some o)
        | '=' :: value => (g.put o (String.ofList value)).map (·, none)
        | value => (g.put o (String.ofList value)).map (·, none)
      else
        match g.put o "" with
        | .error e => .error e
        | .ok g => takeLetters known g cs

def takeLong (known : List Opt) (g : Given) (name : String) (value : Option String) :
    Except Halt (Given × Option Opt) :=
  match known.find? (·.name == name) with
  | none => .error .usage
  | some o =>
    match o.takesValue, value with
    | true, some v => (g.put o v).map (·, none)
    | true, none => .ok (g, some o)
    | false, some _ => .error .usage
    | false, none => (g.put o "").map (·, none)

def takeArgument (known : List Opt) (g : Given) (isLast : Bool) :
    Argument → Except Halt (Given × Option Opt)
  | .word _ => .error .usage
  | .mark => if isLast then .ok (g, none) else .error .usage
  | .long name value => takeLong known g name value
  | .letters cs => takeLetters known g cs

def takeOptions (known : List Opt) : Given → List String → Except Halt (Given × List String)
  | g, [] => .ok (g, [])
  | g, arg :: args =>
    if Argument.isWord arg then .ok (g, arg :: args)
    else
      match takeArgument known g args.isEmpty (.ofText arg) with
      | .error e => .error e
      | .ok (g, none) => takeOptions known g args
      | .ok (g, some o) =>
        match args with
        | [] => .error .usage
        | value :: args =>
          if Argument.isWord value then
            match g.put o value with
            | .error e => .error e
            | .ok g => takeOptions known g args
          else .error .usage

end ModelAudit.CommandLine

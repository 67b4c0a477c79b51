import ModelAudit.CommandLine.Perform

namespace ModelAudit.CommandLine

def programName : String := "sanity"

def programVersion : String := "0.2.0"

def usage : String :=
  "Usage: " ++ programName ++ " [-v] [--json] <command>\n" ++
    "  run [-m MODEL] [-s SPEC] [-f text|json]\n" ++
    "  trace [-m MODEL] [-s SPEC] -i INDEX\n" ++
    "  checks\n" ++
    "  validate [-s SPEC]\n"

def Halt.outcome : Halt → Outcome
  | usage => { code := Outcome.usageCode, errors := CommandLine.usage }
  | help => { code := 0, output := CommandLine.usage }
  | version => { code := 0, output := programName ++ " " ++ programVersion ++ "\n" }

def capacityName : String := "SANITY_EVENT_CAPACITY"

def publishName : String := "SANITY_PUBLISH_PROBLEMS"

def configOf (environment : Environment) : Config :=
  .ofEnvironment (environment capacityName) (environment publishName)

def environmentNames : List String :=
  [capacityName, publishName] ++ (Verb.all.flatMap Verb.options).filterMap Opt.environmentName?

def carryOut (files : Files) (environment : Environment) (args : List String) :
    Except Halt Result :=
  (readArguments environment args).map fun command =>
    command.perform files (configOf environment)

def answer (files : Files) (environment : Environment) (stamp : Stamp) (args : List String) :
    Outcome :=
  match carryOut files environment args with
  | .error halt => halt.outcome
  | .ok result => result.outcome stamp

def Command.paths : Command → List String
  | run model specification _ => model :: specification.toList
  | trace model specification _ => model :: specification.toList
  | checks => []
  | validate specification => [specification]

end ModelAudit.CommandLine

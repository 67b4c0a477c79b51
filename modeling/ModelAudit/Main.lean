import ModelAudit.CommandLine.Answer
import ModelAudit.Report.Instant
import Std.Time.DateTime.Timestamp

namespace ModelAudit.CommandLine

-- The number of an error is negated if it is one of opening a file.
def faultOf : IO.Error → FileFault
  | .noFileOrDirectory .. => .missing
  | .inappropriateType _ 21 _ => .isDirectory
  | .inappropriateType .. => .notDirectory
  | e@(.invalidArgument _ code _) => if code = -36 then .nameTooLong else .other (toString e)
  | e => .other (toString e)

def readFile (path : String) : IO (Except FileFault String) := do
  try
    return textOf (← IO.FS.readBinFile path)
  catch e =>
    return .error (faultOf e)

-- Two digits of the number say that it was drawn by chance.
def drawRun : IO String := do
  let digits := (Digest.hex (← IO.getRandomBytes 16).toList).toList
  let part (start count : Nat) : String := String.ofList ((digits.drop start).take count)
  let variant := String.ofList ["89ab".toList.getD ((digits.getD 16 '0').toNat % 4) '8']
  return part 0 8 ++ "-" ++ part 8 4 ++ "-4" ++ part 13 3 ++ "-" ++ variant ++ part 17 3 ++ "-" ++
    part 20 12

def Outcome.write (o : Outcome) : IO UInt32 := do
  IO.print o.output
  IO.eprint o.errors
  return o.code.toUInt32

def execute (environment : Environment) (command : Command) : IO Outcome := do
  let contents ← command.paths.mapM fun path => return (path, ← readFile path)
  let files : Files := fun path =>
    match contents.find? (·.1 == path) with
    | some content => content.2
    | none => .error .missing
  let begun ← IO.monoMsNow
  let result ← IO.lazyPure fun _ => command.perform files (configOf environment)
  let ended ← IO.monoMsNow
  let now ← Std.Time.Timestamp.now
  return result.outcome
    { run := ← drawRun
      duration := ended - begun
      finished := Instant.text ⟨now.toNanosecondsSinceUnixEpoch.val.toNat⟩ }

end ModelAudit.CommandLine

open ModelAudit.CommandLine in
def main (args : List String) : IO UInt32 := do
  let settings ← environmentNames.filterMapM fun name =>
    return (← IO.getEnv name).map (name, ·)
  let environment : Environment := fun name => (settings.find? (·.1 == name)).map (·.2)
  match readArguments environment args with
  | .error halt => halt.outcome.write
  | .ok command => (← execute environment command).write

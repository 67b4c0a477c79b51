import ModelAudit.Runner.Basic

namespace ModelAudit.Runner

inductive Line where
  | record (r : Record)
  | fail (reason : String)
  | panic (message : String)
deriving DecidableEq, Repr

def Line.run : Line → Checking Unit
  | record r => Checking.deliver r
  | fail reason => throw (.run reason)
  | panic message => Activity.panic (some message)

def followScript : List Line → Checking Unit
  | [] => pure ()
  | line :: lines => do
    Checking.poll
    line.run
    followScript lines

def scripted (script : List Line) : Runner := fun _ _ =>
  followScript script

def deliverAll (heedsFlag : Bool) : List Record → Checking Unit
  | [] => pure ()
  | r :: rs => do
    if heedsFlag then Checking.poll
    Checking.deliver r
    deliverAll heedsFlag rs

def gated (before after : List Record) (heedsFlag : Bool) : Runner := fun _ _ => do
  deliverAll false before
  Checking.gate heedsFlag
  deliverAll heedsFlag after

end ModelAudit.Runner

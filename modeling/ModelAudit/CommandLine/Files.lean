namespace ModelAudit.CommandLine

inductive FileFault where
  | missing
  | isDirectory
  | notDirectory
  | nameTooLong
  | notText
  | other (message : String)
deriving DecidableEq, Repr

def FileFault.message : FileFault → String
  | missing => "No such file or directory (os error 2)"
  | isDirectory => "Is a directory (os error 21)"
  | notDirectory => "Not a directory (os error 20)"
  | nameTooLong => "File name too long (os error 36)"
  | notText => "stream did not contain valid UTF-8"
  | other message => message

abbrev Files :=
  String → Except FileFault String

def textOf (bytes : ByteArray) : Except FileFault String :=
  match String.fromUTF8? bytes with
  | some s => .ok s
  | none => .error .notText

-- A directory as a value, for commands that are to be tried out without a disk.
structure Directory where
  files : List (List String × ByteArray)

inductive Spot where
  | inside (way : List String)
  -- In a directory that is not below this one; nothing is known of what it holds.
  | outside
deriving DecidableEq, Repr

namespace Directory

def maxNameSize : Nat := 255

def maxPathSize : Nat := 4095

def namesOf (path : String) : List String :=
  (path.splitOn "/").filter fun name => name ≠ "" ∧ name ≠ "."

def ofList (files : List (String × ByteArray)) : Directory where
  files := files.map fun f => (namesOf f.1, f.2)

def HasDirectory (d : Directory) (way : List String) : Prop :=
  way = [] ∨ ∃ f ∈ d.files, way <+: f.1 ∧ way ≠ f.1

instance (d : Directory) (way : List String) : Decidable (d.HasDirectory way) :=
  inferInstanceAs (Decidable (_ ∨ _))

def file? (d : Directory) (way : List String) : Option ByteArray :=
  (d.files.find? (·.1 == way)).map (·.2)

def enter (spot : Spot) (name : String) : Except FileFault Spot :=
  if name = "" ∨ name = "." then .ok spot
  else if name = ".." then
    match spot with
    | .inside (first :: way) => .ok (.inside (first :: way).dropLast)
    | _ => .ok .outside
  else if maxNameSize < name.utf8ByteSize then .error .nameTooLong
  else
    match spot with
    | .inside way => .ok (.inside (way ++ [name]))
    | .outside => .error .missing

def expectDirectory (d : Directory) : Spot → Except FileFault Unit
  | .outside => .ok ()
  | .inside way =>
    if d.HasDirectory way then .ok ()
    else .error (if (d.file? way).isSome then .notDirectory else .missing)

def walk (d : Directory) (spot : Spot) : List String → Except FileFault Spot
  | [] => .ok spot
  | name :: names => do
    d.expectDirectory spot
    d.walk (← enter spot name) names

def start (path : String) : Spot :=
  if path.startsWith "/" then .outside else .inside []

def read (d : Directory) : Files := fun path =>
  if maxPathSize < path.utf8ByteSize then .error .nameTooLong
  else
    match d.walk (start path) (path.splitOn "/") with
    | .error e => .error e
    | .ok .outside => .error .isDirectory
    | .ok (.inside way) =>
      if d.HasDirectory way then .error .isDirectory
      else
        match d.file? way with
        | some bytes => textOf bytes
        | none => .error .missing

end Directory

end ModelAudit.CommandLine

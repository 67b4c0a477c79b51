import ModelAudit.Json.Layout

namespace ModelAudit

open Json (Layout Alternative readText alternatives)

inductive Problem.Origin where
  | sanity
  | external (name : String)
deriving DecidableEq, Repr

inductive Problem.Severity where
  | error
  | warning
deriving DecidableEq, Repr

structure Problem where
  origin : Problem.Origin
  severity : Problem.Severity := .error
  path : String
  description : String
deriving DecidableEq, Repr

namespace Problem

def Origin.toJson : Origin → Json
  | sanity => .text "sanity"
  | external name => .object [("external", .text name)]

def Origin.known : List (Alternative Origin) :=
  [.plain "sanity" sanity, .withContent "external" (external <$> readText)]

def Severity.toJson : Severity → Json
  | error => .text "error"
  | warning => .text "warning"

def Severity.known : List (Alternative Severity) :=
  [.plain "error" error, .plain "warning" warning]

def layout : Layout Problem where
  title := "struct Problem"
  blank := { origin := .sanity, path := "", description := "" }
  fields :=
    [⟨"origin", true, (fun x p => { p with origin := x }) <$> alternatives Origin.known⟩,
      ⟨"severity", true, (fun x p => { p with severity := x }) <$> alternatives Severity.known⟩,
      ⟨"path", true, (fun x p => { p with path := x }) <$> readText⟩,
      ⟨"description", true, (fun x p => { p with description := x }) <$> readText⟩]

def toJson (p : Problem) : Json :=
  .object
    [("origin", p.origin.toJson), ("severity", p.severity.toJson), ("path", .text p.path),
      ("description", .text p.description)]

end Problem

structure ProblemList where
  entries : List Problem := []
deriving DecidableEq, Repr

namespace ProblemList

def push (l : ProblemList) (p : Problem) : ProblemList where
  entries := l.entries ++ [p]

def ofOrigin (l : ProblemList) (origin : Problem.Origin) : List Problem :=
  l.entries.filter (·.origin == origin)

def remove (l : ProblemList) (origin : Problem.Origin) : ProblemList where
  entries := l.entries.filter (·.origin != origin)

theorem ofOrigin_remove_self (l : ProblemList) (origin : Problem.Origin) :
    (l.remove origin).ofOrigin origin = [] := by
  simp [ofOrigin, remove, List.filter_filter]

theorem ofOrigin_remove_of_ne {origin other : Problem.Origin} (h : other ≠ origin)
    (l : ProblemList) : (l.remove origin).ofOrigin other = l.ofOrigin other := by
  simp only [ofOrigin, remove, List.filter_filter]
  refine List.filter_congr fun p _ => ?_
  by_cases hp : p.origin = other <;> simp [hp, h]

theorem ofOrigin_push (l : ProblemList) (p : Problem) (origin : Problem.Origin) :
    (l.push p).ofOrigin origin =
      l.ofOrigin origin ++ if p.origin = origin then [p] else [] := by
  by_cases hp : p.origin = origin <;> simp [ofOrigin, push, hp]

end ProblemList

end ModelAudit

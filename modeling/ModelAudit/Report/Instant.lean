import ModelAudit.Text.Numeral

namespace ModelAudit

structure Instant where
  nanoseconds : Nat
deriving DecidableEq, Repr

namespace Instant

def padded (width n : Nat) : String :=
  let ds := Text.numeral n
  String.ofList (List.replicate (width - ds.length) '0' ++ ds)

-- Days are counted from the first of March of the year 0, so that the day that leap years add is the
-- last one of a year.
def date (days : Nat) : Nat × Nat × Nat :=
  let z := days + 719468
  let era := z / 146097
  let dayOfEra := z % 146097
  let yearOfEra := (dayOfEra - dayOfEra / 1460 + dayOfEra / 36524 - dayOfEra / 146096) / 365
  let dayOfYear := dayOfEra - (365 * yearOfEra + yearOfEra / 4 - yearOfEra / 100)
  let m := (5 * dayOfYear + 2) / 153
  let month := if m < 10 then m + 3 else m - 9
  let year := yearOfEra + era * 400 + (if month ≤ 2 then 1 else 0)
  (year, month, dayOfYear - (153 * m + 2) / 5 + 1)

-- There are no places after the second, or three, six or nine.
def fraction (nanoseconds : Nat) : String :=
  if nanoseconds = 0 then ""
  else if nanoseconds % 1000000 = 0 then "." ++ padded 3 (nanoseconds / 1000000)
  else if nanoseconds % 1000 = 0 then "." ++ padded 6 (nanoseconds / 1000)
  else "." ++ padded 9 nanoseconds

def text (i : Instant) : String :=
  let seconds := i.nanoseconds / 1000000000
  let (year, month, day) := date (seconds / 86400)
  padded 4 year ++ "-" ++ padded 2 month ++ "-" ++ padded 2 day ++ "T" ++
    padded 2 (seconds / 3600 % 24) ++ ":" ++ padded 2 (seconds / 60 % 60) ++ ":" ++
    padded 2 (seconds % 60) ++ fraction (i.nanoseconds % 1000000000) ++ "+00:00"

end Instant

end ModelAudit

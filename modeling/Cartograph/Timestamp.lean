/-!
# Time stamps

A time stamp is the date and the time of day in universal time, written so that stamps sort by time. Time is
counted in seconds since the start of 1970. Years are counted from March here, so that the leap day is the
last day of a year and the months before it have fixed places.
-/

namespace Cartograph.Timestamp

structure Date where
  year : Nat
  month : Nat
  day : Nat
  deriving DecidableEq, Repr

def epochDay : Nat := 719468

def cycleDays : Nat := 146097

def dateOf (day : Nat) : Date :=
  let n := day + epochDay
  let inCycle := n % cycleDays
  let yearInCycle := (inCycle - inCycle / 1460 + inCycle / 36524 - inCycle / 146096) / 365
  let inYear := inCycle - (365 * yearInCycle + yearInCycle / 4 - yearInCycle / 100)
  let march := (5 * inYear + 2) / 153
  let month := if march < 10 then march + 3 else march - 9
  { year := 400 * (n / cycleDays) + yearInCycle + (if month ≤ 2 then 1 else 0)
    month
    day := inYear - (153 * march + 2) / 5 + 1 }

example : dateOf 0 = ⟨1970, 1, 1⟩ := by decide

example : dateOf 11016 = ⟨2000, 2, 29⟩ := by decide

example : dateOf 19723 = ⟨2024, 1, 1⟩ := by decide

def padded (width n : Nat) : String :=
  let digits := (Nat.toDigits 10 n)
  String.ofList (List.replicate (width - digits.length) '0' ++ digits)

def text (seconds nanoseconds : Nat) : String :=
  let date := dateOf (seconds / 86400)
  let rest := seconds % 86400
  padded 4 date.year ++ "-" ++ padded 2 date.month ++ "-" ++ padded 2 date.day ++ "T" ++
    padded 2 (rest / 3600) ++ ":" ++ padded 2 (rest / 60 % 60) ++ ":" ++ padded 2 (rest % 60) ++ "." ++
    padded 9 nanoseconds ++ "+00:00"

end Cartograph.Timestamp

/-!
Dates of the Gregorian calendar. Years are counted from March here, so that a leap day is the last
day of its year; four centuries have the same number of days wherever they start.
-/

namespace Turnstile

structure Date where
  year : Nat
  month : Nat
  day : Nat
  deriving DecidableEq, Repr

namespace Date

/-- The days of four centuries. -/
def daysPerEra : Nat := 146097

/-- The days from the first of March of the year 0 to the first of January 1970. -/
def daysToEpoch : Nat := 719468

/-- The year of an era in which one of its days lies. Leap days, but not those left out of
centuries, are taken away before the division. -/
def yearOfEra (day : Nat) : Nat := (day - day / 1460 + day / 36524 - day / 146096) / 365

/-- The days of an era before a year of it. -/
def daysBeforeYear (year : Nat) : Nat := 365 * year + year / 4 - year / 100

/-- The days of a year before a month, both counted from March. Five months have 153 days. -/
def daysBeforeMonth (month : Nat) : Nat := (153 * month + 2) / 5

/-- The date so many days after the first of January 1970. -/
def ofDays (n : Nat) : Date :=
  let n := n + daysToEpoch
  let era := n / daysPerEra
  let dayOfEra := n % daysPerEra
  let y := yearOfEra dayOfEra
  let dayOfYear := dayOfEra - daysBeforeYear y
  let m := (5 * dayOfYear + 2) / 153
  let day := dayOfYear - daysBeforeMonth m + 1
  let year := era * 400 + y
  if m < 10 then ⟨year, m + 3, day⟩ else ⟨year + 1, m - 9, day⟩

end Date

namespace Calendar

/-- A number in decimal with zeros in front up to a width. -/
def padded (width n : Nat) : String :=
  let ds := Nat.toDigits 10 n
  String.ofList (List.replicate (width - ds.length) '0' ++ ds)

def timeText (ms : Nat) : String :=
  padded 2 (ms / 3600000) ++ ":" ++ padded 2 (ms / 60000 % 60) ++ ":" ++ padded 2 (ms / 1000 % 60)
    ++ "." ++ padded 3 (ms % 1000)

def msPerDay : Nat := 86400000

/-- Date and time of so many milliseconds after the start of 1970, in coordinated universal time. -/
def stamp (ms : Nat) : String :=
  let d := Date.ofDays (ms / msPerDay)
  padded 4 d.year ++ "-" ++ padded 2 d.month ++ "-" ++ padded 2 d.day
    ++ "T" ++ timeText (ms % msPerDay) ++ "Z"

end Calendar

end Turnstile

/-!
# Times of log lines

A moment is a number of milliseconds since the beginning of 1970 in universal time. It is shown
either as a time of day or as a full date and time.
-/

namespace AnnotatedGrammar

/-- A moment, in milliseconds since the beginning of 1970. -/
structure Moment where
  milliseconds : Int
deriving DecidableEq, Repr, Inhabited

namespace Moment

/-- `n` in decimal, padded with zeros to at least `width` digits. -/
def padded (width n : Nat) : String :=
  let digits := toString n
  String.ofList (List.replicate (width - digits.length) '0') ++ digits

/-- Days since the beginning of 1970. -/
def dayNumber (m : Moment) : Int := m.milliseconds.fdiv 86400000

/-- Milliseconds since midnight. -/
def ofDay (m : Moment) : Nat := (m.milliseconds.fmod 86400000).toNat

/-- Hours, minutes, seconds and milliseconds. -/
def timeOfDay (m : Moment) : String :=
  let t := m.ofDay
  padded 2 (t / 3600000) ++ ":" ++ padded 2 (t / 60000 % 60) ++ ":" ++
    padded 2 (t / 1000 % 60) ++ "." ++ padded 3 (t % 1000)

/-- A date of the Gregorian calendar, extended to all years. -/
structure Date where
  year : Int
  month : Nat
  day : Nat
deriving DecidableEq, Repr, Inhabited

/-- The date of a day. Counting years from March puts the leap day last, so that the days before
each month follow one formula; the calendar repeats after 400 years of 146097 days in all. -/
def date (m : Moment) : Date :=
  let shifted := m.dayNumber + 719468
  let era := shifted.fdiv 146097
  let dayOfEra := (shifted.fmod 146097).toNat
  let yearOfEra := (dayOfEra - dayOfEra / 1460 + dayOfEra / 36524 - dayOfEra / 146096) / 365
  let dayOfYear := dayOfEra - (365 * yearOfEra + yearOfEra / 4 - yearOfEra / 100)
  let marchMonth := (5 * dayOfYear + 2) / 153
  let day := dayOfYear - (153 * marchMonth + 2) / 5 + 1
  let month := if marchMonth < 10 then marchMonth + 3 else marchMonth - 9
  let year := Int.ofNat yearOfEra + era * 400 + (if month ≤ 2 then 1 else 0)
  ⟨year, month, day⟩

/-- A year in four digits; years outside `0` to `9999` carry a sign. -/
def yearText (year : Int) : String :=
  if 0 ≤ year ∧ year ≤ 9999 then padded 4 year.toNat
  else (if year < 0 then "-" else "+") ++ padded 4 year.natAbs

/-- Date and time in universal time, as structured log lines give it. -/
def dateTime (m : Moment) : String :=
  let d := m.date
  yearText d.year ++ "-" ++ padded 2 d.month ++ "-" ++ padded 2 d.day ++ "T" ++
    m.timeOfDay ++ "Z"

end Moment
end AnnotatedGrammar

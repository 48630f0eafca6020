/-!
# Times

Times are counted in milliseconds since the first day of 1970.  They are written as dates of the
Gregorian calendar, in universal time.
-/

namespace EpochSplit.Time

/-- A day of the calendar. -/
structure Date where
  year : Nat
  month : Nat
  day : Nat
deriving DecidableEq

/-- The date of a day, counted from the first day of 1970.  The reckoning is by years that begin in
March, so that a leap day is the last day of its year, and by spans of 400 years, which all have
146097 days. -/
def dateOfDay (day : Nat) : Date :=
  let shifted := day + 719468
  let span := shifted / 146097
  let dayOfSpan := shifted % 146097
  let yearOfSpan :=
    (dayOfSpan - dayOfSpan / 1460 + dayOfSpan / 36524 - dayOfSpan / 146096) / 365
  let dayOfYear := dayOfSpan - (365 * yearOfSpan + yearOfSpan / 4 - yearOfSpan / 100)
  let monthFromMarch := (5 * dayOfYear + 2) / 153
  let month := if monthFromMarch < 10 then monthFromMarch + 3 else monthFromMarch - 9
  { year := yearOfSpan + span * 400 + if month ≤ 2 then 1 else 0
    month
    day := dayOfYear - (153 * monthFromMarch + 2) / 5 + 1 }

/-- A number with at least `width` digits. -/
def padded (width n : Nat) : String :=
  let digits := (toString n).toList
  String.ofList (List.replicate (width - digits.length) '0' ++ digits)

/-- A time, with the date before the time of the day. -/
def stamp (ms : Nat) : String :=
  let date := dateOfDay (ms / 86400000)
  let second := ms / 1000 % 86400
  s!"{padded 4 date.year}-{padded 2 date.month}-{padded 2 date.day}T" ++
    s!"{padded 2 (second / 3600)}:{padded 2 (second / 60 % 60)}:{padded 2 (second % 60)}" ++
    s!".{padded 3 (ms % 1000)}Z"

end EpochSplit.Time

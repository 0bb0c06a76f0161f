namespace Likeness.Report

-- A moment in universal time.
structure Moment where
  -- since the start of 1970
  seconds : Nat
  nanoseconds : Nat

structure Date where
  year : Nat
  month : Nat
  day : Nat

-- The date of a day, counted from the first day of 1970. Years are taken to start in March, so that
-- a leap day is the last one of its year; 400 years have 146097 days.
def Date.ofDays (days : Nat) : Date :=
  let fromMarch := days + 719468
  let era := fromMarch / 146097
  let dayOfEra := fromMarch % 146097
  let yearOfEra := (dayOfEra - dayOfEra / 1460 + dayOfEra / 36524 - dayOfEra / 146096) / 365
  let dayOfYear := dayOfEra - (365 * yearOfEra + yearOfEra / 4 - yearOfEra / 100)
  let monthFromMarch := (5 * dayOfYear + 2) / 153
  let month := if monthFromMarch < 10 then monthFromMarch + 3 else monthFromMarch - 9
  ⟨yearOfEra + era * 400 + (if month ≤ 2 then 1 else 0), month,
    dayOfYear - (153 * monthFromMarch + 2) / 5 + 1⟩

-- A number with zeros before it.
def padded (width n : Nat) : String :=
  let digits := Nat.toDigits 10 n
  String.ofList (List.replicate (width - digits.length) '0' ++ digits)

-- A part of a second, in thousandths, millionths or less, as far as it is not zero.
def fractionText (nanoseconds : Nat) : String :=
  if nanoseconds = 0 then ""
  else if nanoseconds % 1000000 = 0 then "." ++ padded 3 (nanoseconds / 1000000)
  else if nanoseconds % 1000 = 0 then "." ++ padded 6 (nanoseconds / 1000)
  else "." ++ padded 9 nanoseconds

def Moment.text (m : Moment) : String :=
  let date := Date.ofDays (m.seconds / 86400)
  let second := m.seconds % 86400
  s!"{padded 4 date.year}-{padded 2 date.month}-{padded 2 date.day}T" ++
    s!"{padded 2 (second / 3600)}:{padded 2 (second / 60 % 60)}:{padded 2 (second % 60)}" ++
    fractionText m.nanoseconds ++ "Z"

end Likeness.Report

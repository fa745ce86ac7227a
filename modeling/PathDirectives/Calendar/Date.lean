/-!
Days of the Gregorian calendar, extended without end in both directions, and their numbering from
1970-01-01.
-/

namespace PathDirectives.Calendar

structure Date where
  year : Int
  month : Nat
  day : Nat
  deriving DecidableEq, Repr

def isLeapYear (year : Int) : Bool :=
  year % 4 == 0 && (year % 100 != 0 || year % 400 == 0)

def daysInMonth (year : Int) (month : Nat) : Nat :=
  if month = 2 then if isLeapYear year then 29 else 28
  else if month = 4 ∨ month = 6 ∨ month = 9 ∨ month = 11 then 30
  else 31

def Date.Valid (date : Date) : Prop :=
  1 ≤ date.month ∧ date.month ≤ 12 ∧ 1 ≤ date.day ∧ date.day ≤ daysInMonth date.year date.month

instance (date : Date) : Decidable date.Valid :=
  inferInstanceAs (Decidable (_ ∧ _))

/-- Days since 1970-01-01. Years are counted from March, so that a leap day is the last of its
year, and 400 years always have 146097 days. -/
def Date.number (date : Date) : Int :=
  let year := if date.month ≤ 2 then date.year - 1 else date.year
  let month : Int := if date.month ≤ 2 then date.month + 9 else date.month - 3
  let dayOfYear := (153 * month + 2) / 5 + date.day - 1
  let yearOfCycle := year % 400
  year / 400 * 146097 + yearOfCycle * 365 + yearOfCycle / 4 - yearOfCycle / 100 + dayOfYear - 719468

def Date.ofNumber (number : Int) : Date :=
  let shifted := number + 719468
  let dayOfCycle := shifted % 146097
  let yearOfCycle :=
    (dayOfCycle - dayOfCycle / 1460 + dayOfCycle / 36524 - dayOfCycle / 146096) / 365
  let dayOfYear := dayOfCycle - (365 * yearOfCycle + yearOfCycle / 4 - yearOfCycle / 100)
  let month := (5 * dayOfYear + 2) / 153
  let year := yearOfCycle + shifted / 146097 * 400
  { year := if month < 10 then year else year + 1
    month := (if month < 10 then month + 3 else month - 9).toNat
    day := (dayOfYear - (153 * month + 2) / 5 + 1).toNat }

def firstDay : Int := -96465292

example : Date.number ⟨-262143, 1, 1⟩ = firstDay := by decide

def lastDay : Int := 95026236

example : Date.number ⟨262142, 12, 31⟩ = lastDay := by decide

end PathDirectives.Calendar

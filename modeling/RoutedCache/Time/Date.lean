/-!
# Dates of the Gregorian calendar

The calendar is extended without bound in both directions, with a year 0 before the year 1.  Days are
counted from 1970-01-01, and `Date.ofDays` undoes `Date.toDays`.
-/

namespace RoutedCache

def isLeapYear (year : Int) : Bool := year % 4 == 0 && (year % 100 != 0 || year % 400 == 0)

/-- The lengths of the twelve months. -/
def monthLengths (year : Int) : List Nat :=
  [31, if isLeapYear year then 29 else 28, 31, 30, 31, 30, 31, 31, 30, 31, 30, 31]

structure Date where
  year : Int
  month : Nat
  day : Nat
deriving DecidableEq, Repr

namespace Date

/-- The length of the month, 0 if there is no such month. -/
def monthLength (year : Int) (month : Nat) : Nat :=
  if month = 0 then 0 else (monthLengths year).getD (month - 1) 0

def Valid (date : Date) : Prop := 1 ≤ date.day ∧ date.day ≤ monthLength date.year date.month

instance (date : Date) : Decidable date.Valid := inferInstanceAs (Decidable (_ ∧ _))

/-- The days of months of the given lengths. -/
def daysOf : List Nat → Nat
  | [] => 0
  | length :: rest => length + daysOf rest

/-- The days from 1970-01-01 to the first day of the year. -/
def daysToYear (year : Int) : Int :=
  365 * (year - 1) + (year - 1) / 4 - (year - 1) / 100 + (year - 1) / 400 - 719162

def toDays (date : Date) : Int :=
  daysToYear date.year + daysOf ((monthLengths date.year).take (date.month - 1)) + date.day - 1

/-- The year of a day: the estimate by the mean length of a year is off by one at most. -/
def yearOfDays (days : Int) : Int :=
  let estimate := (days + 719162) * 400 / 146097 + 1
  if days < daysToYear estimate then estimate - 1
  else if daysToYear (estimate + 1) ≤ days then estimate + 1
  else estimate

/-- The month and the day in it of the day `index`, counted from 0, over months of the given lengths. -/
def monthAndDay (month index : Nat) : List Nat → Nat × Nat
  | [] => (month, index + 1)
  | length :: rest =>
    if index < length then (month, index + 1) else monthAndDay (month + 1) (index - length) rest

def ofDays (days : Int) : Date :=
  let year := yearOfDays days
  let place := monthAndDay 1 (days - daysToYear year).toNat (monthLengths year)
  ⟨year, place.1, place.2⟩

end Date

end RoutedCache

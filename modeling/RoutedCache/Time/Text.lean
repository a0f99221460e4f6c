import RoutedCache.Text.Digits
import RoutedCache.Time.Instant

/-!
# Written instants

An instant is written as `YYYY-MM-DDTHH:MM:SSZ` in UTC, with the fewest of 0, 3, 6 or 9 digits of the second
that are exact.  A year outside 0 to 9999 has a sign and at least four digits, and a leap second is the
second 60.
-/

namespace RoutedCache.Instant

def yearText (year : Int) : List Char :=
  if year < 0 then '-' :: paddedDigits 4 year.natAbs
  else if 9999 < year then '+' :: paddedDigits 4 year.natAbs
  else paddedDigits 4 year.natAbs

def dateText (date : Date) : List Char :=
  yearText date.year ++ '-' :: fixedDigits 2 date.month ++ '-' :: fixedDigits 2 date.day

/-- The shortest exact fraction in steps of three digits. -/
def fractionText (nanos : Nat) : List Char :=
  if nanos = 0 then []
  else if nanos % 1000000 = 0 then '.' :: fixedDigits 3 (nanos / 1000000)
  else if nanos % 1000 = 0 then '.' :: fixedDigits 6 (nanos / 1000)
  else '.' :: fixedDigits 9 nanos

def timeText (second nanos : Nat) : List Char :=
  let leap := nanos / 1000000000
  fixedDigits 2 (second / 3600) ++ ':' :: fixedDigits 2 (second / 60 % 60) ++
    ':' :: fixedDigits 2 (second % 60 + leap) ++ fractionText (nanos % 1000000000)

/-- The day since 1970-01-01. -/
def dayNumber (t : Instant) : Int := t.seconds / 86400

def secondOfDay (t : Instant) : Nat := (t.seconds % 86400).toNat

def toText (t : Instant) : List Char :=
  dateText (Date.ofDays t.dayNumber) ++ 'T' :: timeText t.secondOfDay t.nanos ++ ['Z']

end RoutedCache.Instant

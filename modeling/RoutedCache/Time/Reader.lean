import RoutedCache.Text.Blank
import RoutedCache.Text.Digits
import RoutedCache.Time.Instant

/-!
# Reading instants

The reader accepts a date and a time of day with a zone and answers the instant in UTC.  White space may
stand before each number and each separator; numbers may lack leading zeros; the date is followed at once by
`T`, `t` or a space.  A year of more than four digits needs a sign.  The second 60 is the leap second after the
second 59.  Digits of the fraction after the ninth are dropped.

The zone is `Z`, `UTC` in any case, or a sign with two digits of hours, two digits of minutes and perhaps
colons or white space between them.  The local date and the instant have to lie in the years -262143 to
262142.
-/

namespace RoutedCache.Instant

/-- A reader of one part of a text: the value and the rest of the text. -/
abbrev Part (α : Type) := List Char → Option (α × List Char)

def skipBlanks (s : List Char) : List Char := s.dropWhile isBlank

/-- A number of one to `width` digits, after white space. -/
def readNumber (width : Nat) : Part Nat := fun s =>
  let s := skipBlanks s
  let digits := (s.take width).takeWhile Char.isDigit
  if digits.isEmpty then none else some (ofDigits digits, s.drop digits.length)

/-- A number within bounds. -/
def readBetween (low high : Nat) : Part Nat := fun s => do
  let (n, rest) ← readNumber 2 s
  if low ≤ n ∧ n ≤ high then some (n, rest) else none

/-- The separator after white space. -/
def readMark (mark : Char) : Part Unit := fun s =>
  match skipBlanks s with
  | [] => none
  | c :: rest => if c = mark then some ((), rest) else none

/-- All digits at the start, at least one. -/
def readDigits : Part (List Char) := fun s =>
  let digits := s.takeWhile Char.isDigit
  if digits.isEmpty then none else some (digits, s.drop digits.length)

def readYear : Part Int := fun s =>
  match skipBlanks s with
  | '-' :: rest => (readDigits rest).map fun (digits, rest) => (-(ofDigits digits : Int), rest)
  | '+' :: rest => (readDigits rest).map fun (digits, rest) => ((ofDigits digits : Int), rest)
  | s => (readNumber 4 s).map fun (n, rest) => ((n : Int), rest)

def readDate : Part Date := fun s => do
  let (year, s) ← readYear s
  let ((), s) ← readMark '-' s
  let (month, s) ← readBetween 1 12 s
  let ((), s) ← readMark '-' s
  let (day, s) ← readBetween 1 31 s
  let date : Date := ⟨year, month, day⟩
  if date.Valid ∧ -262143 ≤ year ∧ year ≤ 262142 then some (date, s) else none

/-- The letter `T` or the space between the date and the time. -/
def readBreak : Part Unit
  | [] => none
  | c :: rest => if c = 'T' ∨ c = 't' ∨ c = ' ' then some ((), rest) else none

/-- The fraction of a second in nanoseconds, 0 if there is none. -/
def readFraction : Part Nat
  | '.' :: s => do
    let (digits, s) ← readDigits s
    let kept := digits.take 9
    some (ofDigits kept * Nat.pow 10 (9 - kept.length), s)
  | s => some (0, s)

/-- The second of the day and the nanoseconds in it, those of a leap second counted from 1000000000 on. -/
def readTime : Part (Nat × Nat) := fun s => do
  let (hour, s) ← readBetween 0 23 s
  let ((), s) ← readMark ':' s
  let (minute, s) ← readBetween 0 59 s
  let ((), s) ← readMark ':' s
  let (second, s) ← readBetween 0 60 s
  let (nanos, s) ← readFraction s
  let start := hour * 3600 + minute * 60
  if second = 60 then some ((start + 59, 1000000000 + nanos), s) else some ((start + second, nanos), s)

/-- Exactly two digits. -/
def readPair : Part Nat
  | a :: b :: rest => if a.isDigit ∧ b.isDigit then some (ofDigits [a, b], rest) else none
  | _ => none

/-- Hours and minutes of a zone in seconds. -/
def readOffset : Part Nat := fun s => do
  let (hours, s) ← readPair s
  let (minutes, s) ← readPair (s.dropWhile fun c => c = ':' || isBlank c)
  if hours < 24 ∧ minutes < 60 then some (hours * 3600 + minutes * 60, s) else none

/-- The seconds by which the zone is ahead of UTC. -/
def readZone : Part Int
  | 'Z' :: s => some (0, s)
  | 'z' :: s => some (0, s)
  | '+' :: s => (readOffset s).map fun (n, rest) => ((n : Int), rest)
  | '-' :: s => (readOffset s).map fun (n, rest) => (-(n : Int), rest)
  | '−' :: s => (readOffset s).map fun (n, rest) => (-(n : Int), rest)
  | a :: b :: c :: s => if [a, b, c].map Char.toUpper = ['U', 'T', 'C'] then some (0, s) else none
  | _ => none

def read? (s : List Char) : Option Instant := do
  let (date, s) ← readDate s
  let ((), s) ← readBreak s
  let ((second, nanos), s) ← readTime s
  let (offset, s) ← readZone (skipBlanks s)
  if (skipBlanks s).isEmpty then ofParts? (date.toDays * 86400 + second - offset) nanos else none

end RoutedCache.Instant

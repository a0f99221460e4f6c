import RoutedCache.Time.Date
import RoutedCache.Time.Duration

/-!
# Instants

An instant is a second since 1970-01-01T00:00:00Z and a number of nanoseconds in it.  The last second of a
minute may be followed by a leap second, which is counted in the same second by nanoseconds from 1000000000
on.  No text can name a leap second after any other second, since it would be written as the second that follows
(`Instant.timeText_leap`), and there is no such instant here.  Instants are ordered by second and then by
nanosecond.

Adding a duration stays within a leap second if the duration ends there, and saturates at `Instant.latest`.
-/

namespace RoutedCache

/-- The first second of the year -262143. -/
def firstSecond : Int := -8334601228800

/-- The last second of the year 262142. -/
def lastSecond : Int := 8210266876799

structure Instant where
  seconds : Int
  nanos : Nat
  first_le : firstSecond ≤ seconds := by decide
  le_last : seconds ≤ lastSecond := by decide
  nanos_lt : nanos < 2000000000 := by decide
  leap_minute : 1000000000 ≤ nanos → seconds % 60 = 59 := by decide
deriving DecidableEq, Repr

namespace Instant

def earliest : Instant := ⟨firstSecond, 0, by decide, by decide, by decide, by decide⟩

/-- The last instant outside a leap second. -/
def latest : Instant := ⟨lastSecond, 999999999, by decide, by decide, by decide, by decide⟩

instance : Inhabited Instant := ⟨⟨0, 0, by decide, by decide, by decide, by decide⟩⟩

instance : LT Instant where
  lt a b := a.seconds < b.seconds ∨ a.seconds = b.seconds ∧ a.nanos < b.nanos

instance : LE Instant where
  le a b := a.seconds < b.seconds ∨ a.seconds = b.seconds ∧ a.nanos ≤ b.nanos

theorem lt_def {a b : Instant} :
    a < b ↔ a.seconds < b.seconds ∨ a.seconds = b.seconds ∧ a.nanos < b.nanos := Iff.rfl

theorem le_def {a b : Instant} :
    a ≤ b ↔ a.seconds < b.seconds ∨ a.seconds = b.seconds ∧ a.nanos ≤ b.nanos := Iff.rfl

instance (a b : Instant) : Decidable (a < b) := decidable_of_iff' _ lt_def

instance (a b : Instant) : Decidable (a ≤ b) := decidable_of_iff' _ le_def

/-- Refuses what is out of range and a leap second in the middle of a minute. -/
def ofParts? (seconds : Int) (nanos : Nat) : Option Instant :=
  if h : firstSecond ≤ seconds ∧ seconds ≤ lastSecond ∧ nanos < 2000000000 ∧
      (1000000000 ≤ nanos → seconds % 60 = 59) then
    some ⟨seconds, nanos, h.1, h.2.1, h.2.2.1, h.2.2.2⟩
  else none

/-- The nanoseconds from 1970 on, for an instant outside a leap second. -/
def ofNanos? (nanos : Int) : Option Instant :=
  ofParts? (nanos / 1000000000) (nanos % 1000000000).toNat

def toNanos (t : Instant) : Int := t.seconds * 1000000000 + t.nanos

/-- The sum, if it is in range.  A duration that is shorter than the rest of a leap second ends in that leap
second; any other one counts as if the leap second were the second before it. -/
def add? (t : Instant) (d : Duration) : Option Instant :=
  if 1000000000 ≤ t.nanos then
    if t.nanos + d.toNanos < 2000000000 then ofParts? t.seconds (t.nanos + d.toNanos)
    else ofNanos? (t.toNanos - 1000000000 + d.toNanos)
  else ofNanos? (t.toNanos + d.toNanos)

/-- The longest duration that an instant is moved by, in nanoseconds: 2^63 - 1 milliseconds. -/
def longestStep : Nat := 9223372036854775807000000

def addSaturating (t : Instant) (d : Duration) : Instant :=
  if d.toNanos ≤ longestStep then (t.add? d).getD latest else latest

end Instant

end RoutedCache

/-!
# Durations

A duration is a number of whole seconds and a fraction in nanoseconds.
-/

namespace RoutedCache

structure Duration where
  seconds : Nat
  nanos : Nat := 0
  nanos_lt : nanos < 1000000000 := by decide
deriving DecidableEq, Repr

namespace Duration

def toNanos (d : Duration) : Nat := d.seconds * 1000000000 + d.nanos

def ofMillis (ms : Nat) : Duration :=
  ⟨ms / 1000, ms % 1000 * 1000000, by omega⟩

end Duration

end RoutedCache

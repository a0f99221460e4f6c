import RoutedCache.Time.Instant

/-!
# Wall clocks

A wall clock counts nanoseconds from 1970-01-01T00:00:00Z on, forwards and backwards.  It can be read from 1970
up to the last instant; outside this range it goes on but shows nothing.  A clock has no leap seconds: set to
one it stands in the second after it.
-/

namespace RoutedCache

structure Clock where
  nanos : Int
deriving DecidableEq, Repr, Inhabited

namespace Clock

def ofInstant (t : Instant) : Clock := ⟨t.toNanos⟩

def forward (clock : Clock) (d : Duration) : Clock := ⟨clock.nanos + d.toNanos⟩

/-- The instant that the clock shows. -/
def read? (clock : Clock) : Option Instant := if 0 ≤ clock.nanos then Instant.ofNanos? clock.nanos else none

end Clock

end RoutedCache

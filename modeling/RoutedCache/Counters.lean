import RoutedCache.Decimal
import RoutedCache.Json.Writer

/-!
# Counters

What a cache counts about its calls and sweeps.
-/

namespace RoutedCache

structure Counters where
  hits : Nat := 0
  misses : Nat := 0
  writes : Nat := 0
  skippedWrites : Nat := 0
  burned : Nat := 0
  deletes : Nat := 0
  evicted : Nat := 0
  evictionFailures : Nat := 0
deriving DecidableEq, Repr, Inhabited

namespace Counters

/-- The counters with the names under which they are reported. -/
def fields (c : Counters) : List (String × Nat) :=
  [("hits", c.hits), ("misses", c.misses), ("writes", c.writes), ("skipped_writes", c.skippedWrites),
    ("burned", c.burned), ("deletes", c.deletes), ("evicted", c.evicted),
    ("eviction_failures", c.evictionFailures)]

def encode (c : Counters) : Bytes :=
  Json.objectText (c.fields.map fun field => (field.1, Json.naturalText field.2))

/-- The part of the reads that found a record, 0 before the first read; `none` for 2^64 reads and more, which
are not counted. -/
def hitRate? (c : Counters) : Option Float :=
  let reads := c.hits + c.misses
  if Nat.pow 2 64 ≤ reads then none
  else if reads = 0 then some 0
  else some (c.hits.toUInt64.toFloat / reads.toUInt64.toFloat)

end Counters

end RoutedCache

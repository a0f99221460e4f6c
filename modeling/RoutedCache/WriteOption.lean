import RoutedCache.Error
import RoutedCache.Record

/-!
# Write options

Options change a fresh record before it is stored.  Two of them set the end of the validity, and only the
first of these in a list is accepted.
-/

namespace RoutedCache

inductive WriteOption where
  | ttl (length : Duration)
  | eol (stop : Instant)
  | burnAfterReading
deriving DecidableEq, Repr

namespace Record

def setExpiry (record : Record) (stop : Instant) : Except CacheError Record :=
  match record.metadata.notValidAfter with
  | some _ => .error .duplicateExpiry
  | none => .ok { record with metadata := { record.metadata with notValidAfter := some stop } }

/-- The record after one option.  A time to live counts from the creation of the record. -/
def apply (record : Record) : WriteOption → Except CacheError Record
  | .ttl length => record.setExpiry (record.metadata.createdAt.addSaturating length)
  | .eol stop => record.setExpiry stop
  | .burnAfterReading => .ok { record with metadata := { record.metadata with burnAfterReading := true } }

/-- The record after all options, or the first error. -/
def applyAll (record : Record) (options : List WriteOption) : Except CacheError Record :=
  options.foldlM apply record

/-- The outcome of each option with the record after it; an option that fails leaves the record as it was. -/
def applyEach (record : Record) : List WriteOption → List (Except CacheError Unit × Record)
  | [] => []
  | option :: rest =>
    match record.apply option with
    | .ok next => (.ok (), next) :: next.applyEach rest
    | .error e => (.error e, record) :: record.applyEach rest

end Record

end RoutedCache

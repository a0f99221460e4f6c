import RoutedCache.Bytes
import RoutedCache.Time.Instant

/-!
# Records

A record is a payload with its metadata.  It is valid at every instant before the end of its validity, and
always if there is no such end.
-/

namespace RoutedCache

structure Metadata where
  createdAt : Instant
  notValidAfter : Option Instant := none
  burnAfterReading : Bool := false
deriving DecidableEq, Repr

def Metadata.isValidAt (metadata : Metadata) (t : Instant) : Bool :=
  match metadata.notValidAfter with
  | some stop => t < stop
  | none => true

structure Record where
  data : Bytes
  metadata : Metadata
deriving DecidableEq, Repr

namespace Record

/-- A record without an end of its validity. -/
def fresh (data : Bytes) (createdAt : Instant) : Record := ⟨data, { createdAt }⟩

def isValidAt (record : Record) (t : Instant) : Bool := record.metadata.isValidAt t

end Record

/-- A record with the key it belongs to. -/
structure KeyRecord where
  key : String
  record : Record
deriving DecidableEq, Repr

end RoutedCache

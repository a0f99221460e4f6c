import RoutedCache.Base64
import RoutedCache.Json.Fields
import RoutedCache.Json.Writer
import RoutedCache.Record
import RoutedCache.Time.Reader
import RoutedCache.Time.Text

/-!
# Documents

Metadata and whole records as JSON texts.  Instants are texts and payloads are base64.  A reader takes the
fields in any order and ignores members of other names; only the end of the validity may be missing.
-/

namespace RoutedCache

namespace Json

def instantText (t : Instant) : Bytes := quoted (asciiBytes t.toText)

def optionText {α : Type} (write : α → Bytes) : Option α → Bytes
  | some value => write value
  | none => nullText

namespace Value

def instant? (value : Value) : Option Instant := value.text?.bind fun text => Instant.read? text.toList

/-- An instant that may be null or missing. -/
def optionalInstant? : Option Value → Option (Option Instant)
  | none => some none
  | some .null => some none
  | some value => value.instant?.map some

def payload? (value : Value) : Option Bytes := value.text?.bind fun text => Base64.decode? (utf8 text)

end Value

end Json

open Json

def Metadata.members (metadata : Metadata) : List (String × Bytes) :=
  [("created_at", instantText metadata.createdAt),
    ("not_valid_after", optionText instantText metadata.notValidAfter),
    ("burn_after_reading", boolText metadata.burnAfterReading)]

def Metadata.encode (metadata : Metadata) : Bytes := objectText metadata.members

def Metadata.ofFields? (createdAt notValidAfter burnAfterReading : Option Value) : Option Metadata := do
  let createdAt ← createdAt.bind Value.instant?
  let notValidAfter ← Value.optionalInstant? notValidAfter
  let burnAfterReading ← burnAfterReading.bind Value.bool?
  some { createdAt, notValidAfter, burnAfterReading }

def Metadata.decode? (text : Bytes) : Option Metadata := do
  match ← (← Value.parse? text).fields? ["created_at", "not_valid_after", "burn_after_reading"] with
  | [createdAt, notValidAfter, burnAfterReading] => ofFields? createdAt notValidAfter burnAfterReading
  | _ => none

namespace KeyRecord

def encode (entry : KeyRecord) : Bytes :=
  objectText (("key", quoted (utf8 entry.key)) ::
    ("data", quoted (Base64.encode entry.record.data)) :: entry.record.metadata.members)

def decode? (text : Bytes) : Option KeyRecord := do
  let value ← Value.parse? text
  match ← value.fields? ["key", "data", "created_at", "not_valid_after", "burn_after_reading"] with
  | [key, data, createdAt, notValidAfter, burnAfterReading] =>
    let key ← key.bind Value.text?
    let data ← data.bind Value.payload?
    let metadata ← Metadata.ofFields? createdAt notValidAfter burnAfterReading
    some ⟨key, data, metadata⟩
  | _ => none

end KeyRecord

end RoutedCache

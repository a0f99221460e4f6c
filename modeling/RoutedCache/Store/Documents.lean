import RoutedCache.Document
import RoutedCache.Key
import RoutedCache.KeyMap

/-!
# Collections of documents

A collection keeps one document per key.  A look-up refuses a document that cannot be decoded, a listing
passes over it.  The key of a record that is read is the key in its document.
-/

namespace RoutedCache

abbrev Documents := KeyMap Bytes

namespace Documents

def put (documents : Documents) (entry : KeyRecord) : Documents := documents.insert entry.key entry.encode

/-- The record of a key: `none` if its document cannot be decoded, `some none` if there is no document. -/
def find? (documents : Documents) (key : String) : Option (Option KeyRecord) :=
  match documents.get? key with
  | none => some none
  | some document => (KeyRecord.decode? document).map some

/-- The run of entries whose keys start with the given text, from the first key that is not below it on. -/
def run (documents : Documents) (start : String) : List (String × Bytes) :=
  (documents.toList.dropWhile fun entry => entry.1 < start).takeWhile fun entry => startsWith start entry.1

def list (documents : Documents) (start : String) : List KeyRecord :=
  (documents.run start).filterMap fun entry => KeyRecord.decode? entry.2

end Documents

/-- A collection of a database: documents, or a table of another type. -/
inductive Collection where
  | documents (documents : Documents)
  | other
deriving DecidableEq

abbrev Database := KeyMap Collection

namespace Database

/-- The documents of a collection, none if there is no such collection of documents. -/
def documents (database : Database) (collection : String) : Documents :=
  match database.get? collection with
  | some (.documents documents) => documents
  | _ => .empty

def setDocuments (database : Database) (collection : String) (documents : Documents) : Database :=
  database.insert collection (.documents documents)

end Database

end RoutedCache

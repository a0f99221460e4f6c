import RoutedCache.Error
import RoutedCache.Path
import RoutedCache.Store.Documents

/-!
# Stores

A store keeps records by key, in memory or as the documents of one collection of a database, or in memory
under rules that make its calls slow or refuse them.  A call changes the content only if it succeeds.
-/

namespace RoutedCache

inductive StoreCall where
  | put (entry : KeyRecord)
  | get (key : String)
  | list (start : String)
  | delete (key : String)
deriving DecidableEq, Repr

inductive Reply where
  | done
  | found (entry : Option KeyRecord)
  | listed (entries : List KeyRecord)
  | failed (fault : StoreFault)
deriving DecidableEq, Repr

/-- The rules of a faulty store: waiting times in milliseconds and what is refused. -/
structure Faults where
  refuseLock : Bool := false
  putDelay : Nat := 0
  getDelay : Nat := 0
  listDelay : Nat := 0
  deleteDelay : Nat := 0
  refusePut : List String := []
  refuseGet : List String := []
  refuseDelete : List String := []
  refuseList : Bool := false
  /-- Listings do not look at the start of the keys. -/
  listAll : Bool := false
  /-- A deletion that succeeds trips the trip token. -/
  tripOnDelete : Bool := false
deriving DecidableEq, Repr

namespace Faults

def delay (faults : Faults) : StoreCall → Nat
  | .put _ => faults.putDelay
  | .get _ => faults.getDelay
  | .list _ => faults.listDelay
  | .delete _ => faults.deleteDelay

def refusal? (faults : Faults) : StoreCall → Option StoreFault
  | .put entry => if faults.refusePut.any (occursIn · entry.key) then some (.refused .put) else none
  | .get key => if faults.refuseGet.any (occursIn · key) then some (.refused .get) else none
  | .list _ => if faults.refuseList then some (.refused .list) else none
  | .delete key => if faults.refuseDelete.any (occursIn · key) then some (.refused .delete) else none

/-- The call that is made in the place of a call. -/
def widen (faults : Faults) : StoreCall → StoreCall
  | .list start => .list (if faults.listAll then "" else start)
  | call => call

end Faults

/-- The outcome of a call on records in memory.  A listing has the order of the keys; what a sweep makes of it
does not hang on this order (`Inventory.Leaves.unique`). -/
def performEntries (entries : KeyMap Record) : StoreCall → Reply × KeyMap Record
  | .put entry => (.done, entries.insert entry.key entry.record)
  | .get key => (.found ((entries.get? key).map (⟨key, ·⟩)), entries)
  | .list start =>
    (.listed ((entries.toList.filter fun e => startsWith start e.1).map fun e => ⟨e.1, e.2⟩), entries)
  | .delete key => (.done, entries.erase key)

/-- The outcome of a call on the documents of a collection. -/
def performDocuments (documents : Documents) : StoreCall → Reply × Documents
  | .put entry => (.done, documents.put entry)
  | .get key =>
    match documents.find? key with
    | some entry => (.found entry, documents)
    | none => (.failed .undecodable, documents)
  | .list start => (.listed (documents.list start), documents)
  | .delete key => (.done, documents.erase key)

inductive Store where
  | memory (entries : KeyMap Record)
  /-- The documents of a collection, and the database at a place as it was when it was opened. -/
  | document (file : Place) (collection : String) (opened : Database) (documents : Documents)
  | faulty (faults : Faults) (entries : KeyMap Record)
deriving DecidableEq

namespace Store

instance : Inhabited Store := ⟨.memory .empty⟩

def kind : Store → String
  | memory _ => "memory"
  | document .. => "document"
  | faulty .. => "faulty"

/-- Why the lock is refused to everybody. -/
def lockRefusal? : Store → Option StoreFault
  | faulty faults _ => if faults.refuseLock then some (.refused .lock) else none
  | _ => none

/-- The milliseconds for which a job waits with the lock before it makes a call. -/
def delay (store : Store) (call : StoreCall) : Nat :=
  match store with
  | faulty faults _ => faults.delay call
  | _ => 0

/-- Whether a call is under way for a while, in which other jobs have their turns and the time goes by. -/
def yields : Store → Bool
  | document .. => true
  | _ => false

def perform (store : Store) (call : StoreCall) : Reply × Store :=
  match store with
  | memory entries =>
    let (reply, entries) := performEntries entries call
    (reply, memory entries)
  | document file collection opened documents =>
    let (reply, documents) := performDocuments documents call
    (reply, document file collection opened documents)
  | faulty faults entries =>
    match faults.refusal? call with
    | some fault => (.failed fault, store)
    | none =>
      let (reply, entries) := performEntries entries (faults.widen call)
      (reply, faulty faults entries)

/-- Whether the call trips the trip token. -/
def trips (store : Store) (call : StoreCall) (reply : Reply) : Bool :=
  match store, call, reply with
  | faulty faults _, .delete _, .done => faults.tripOnDelete
  | _, _, _ => false

end Store

end RoutedCache

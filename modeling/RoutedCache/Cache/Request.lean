import RoutedCache.Cache.Sweep
import RoutedCache.Counters
import RoutedCache.Time.Clock
import RoutedCache.WriteOption

/-!
# Requests and answers

`Request.route` decides what a request comes to before any lock is asked for: an answer at once, or a visit
to a store with a first call.  `Counters.count` is the one place where an answer changes the counters.  A call
that needs the time while the clock shows none breaks off.
-/

namespace RoutedCache

inductive Request where
  | write (key : String) (data : Bytes) (options : List WriteOption)
  | read (key : String)
  | delete (key : String)
  | sweep
  /-- Calls to one store under one lock. -/
  | calls (store : Nat) (calls : List StoreCall)
  /-- Keeps the lock of a store for some milliseconds. -/
  | hold (store ms : Nat)
  /-- Sweeps again and again, with a pause before each sweep. -/
  | sweeper
  /-- Stops the sweeper and waits for its end. -/
  | shutdown
deriving DecidableEq, Repr

inductive Answer where
  | written
  /-- The record was expired before it was stored. -/
  | dropped
  | record (record : Record)
  | deleted
  | swept (report : SweepReport)
  | replies (replies : List Reply)
  | ended
  | failed (error : CacheError)
  /-- The clock showed no time. -/
  | broken
deriving DecidableEq, Repr

/-- Every answer ends one path through a call, which counts it in the turn of the answer. -/
def Counters.count (counters : Counters) : Answer → Counters
  | .written => { counters with writes := counters.writes + 1 }
  | .dropped => { counters with skippedWrites := counters.skippedWrites + 1 }
  | .record record =>
    { counters with
      hits := counters.hits + 1
      burned := counters.burned + if record.metadata.burnAfterReading then 1 else 0 }
  | .deleted => { counters with deletes := counters.deletes + 1 }
  | .swept report =>
    { counters with
      evicted := counters.evicted + report.deleted
      evictionFailures := counters.evictionFailures + report.failed }
  | .failed (.notFound _) => { counters with misses := counters.misses + 1 }
  | _ => counters

/-- What a job does while it holds the lock of a store. -/
inductive Visit where
  | put (entry : KeyRecord)
  | get (key : String)
  /-- Deletes the record that was read. -/
  | burn (key : String) (record : Record)
  | delete (key : String)
  | list (path : String) (cycle : SweepCycle)
  | evict (key : String) (mount : MountSweep) (cycle : SweepCycle)
  | calls (left : List StoreCall) (replies : List Reply)
  | hold (ms : Nat)
deriving DecidableEq, Repr

/-- The key in its stored form and the store that serves it. -/
def MountTable.place (mounts : MountTable Nat) (key : String) : Except CacheError (String × Nat) := do
  let key ← (normalizeKey key).mapError .invalidKey
  let (_, store) ← mounts.resolve key
  .ok (key, store)

/-- The record of a write at the given time, or the answer if there is none to store.  The record is made and checked in
one turn, in which the clock does not move. -/
def Request.freshEntry (now : Option Instant) (key : String) (data : Bytes) (options : List WriteOption) :
    Except Answer KeyRecord :=
  match normalizeKey key, now with
  | .error e, _ => .error (.failed (.invalidKey e))
  | .ok _, none => .error .broken
  | .ok key, some now =>
    match (Record.fresh data now).applyAll options with
    | .error e => .error (.failed e)
    | .ok record => if record.isValidAt now then .ok ⟨key, record⟩ else .error .dropped

/-- An answer without a lock, or the store to visit and what to do there. -/
def Request.route (mounts : MountTable Nat) (clock : Clock) : Request → Except Answer (Nat × Visit)
  | .write key data options =>
    match freshEntry clock.read? key data options with
    | .error answer => .error answer
    | .ok entry =>
      match mounts.resolve entry.key with
      | .error e => .error (.failed e)
      | .ok (_, store) => .ok (store, .put entry)
  | .read key =>
    match mounts.place key with
    | .error e => .error (.failed e)
    | .ok (key, store) => .ok (store, .get key)
  | .delete key =>
    match mounts.place key with
    | .error e => .error (.failed e)
    | .ok (key, store) => .ok (store, .delete key)
  | .calls store left => .ok (store, .calls left [])
  | .hold store ms => .ok (store, .hold ms)
  | .sweep | .sweeper | .shutdown => .error .ended

namespace Visit

/-- The call to make now. -/
def call? : Visit → Option StoreCall
  | put entry => some (.put entry)
  | get key => some (.get key)
  | burn key _ => some (.delete key)
  | delete key => some (.delete key)
  | list path _ => some (.list path)
  | evict key _ _ => some (.delete key)
  | calls left _ => left.head?
  | hold _ => none

/-- What follows on a reply. -/
inductive Turn where
  /-- One more call under the same lock. -/
  | stay (visit : Visit)
  /-- The job is over. -/
  | answer (answer : Answer)
  /-- The sweep goes on to the next mount. -/
  | move (cycle : SweepCycle)
deriving DecidableEq, Repr

/-- What becomes of the job if the visit fails, the lock not being taken included. -/
def fail (visit : Visit) (error : CacheError) : Turn :=
  match visit with
  | list _ cycle => .move cycle.skip
  | evict _ _ cycle => .move cycle.skip
  | _ => .answer (.failed error)

/-- Goes on with the records that a listing has left. -/
def sweepOn (path : String) (clock : Instant) (cancelled : Bool) (report : SweepReport)
    (rest : List KeyRecord) (cycle : SweepCycle) : Turn :=
  match MountSweep.next path clock cancelled report rest with
  | .error report => .move (cycle.add report)
  | .ok (entry, mount) => .stay (evict entry.key mount cycle)

/-- Starts on what a listing has answered. -/
def listOn (path : String) (now : Option Instant) (cancelled : Bool) (entries : List KeyRecord)
    (cycle : SweepCycle) : Turn :=
  match now with
  | none => .answer .broken
  | some now => sweepOn path now cancelled {} entries cycle

/-- A read record: valid ones are answered, after their deletion if they are to be read only once. -/
def readOn (key : String) (now : Option Instant) : Option KeyRecord → Turn
  | none => .answer (.failed (.notFound key))
  | some entry =>
    match now with
    | none => .answer .broken
    | some now =>
      if !entry.record.isValidAt now then .answer (.failed (.notFound key))
      else if entry.record.metadata.burnAfterReading then .stay (burn key entry.record)
      else .answer (.record entry.record)

def callsOn (left : List StoreCall) (replies : List Reply) : Turn :=
  if left.isEmpty then .answer (.replies replies) else .stay (calls left replies)

/-- What follows on the reply to the call of the visit. -/
def next (visit : Visit) (clock : Clock) (cancelled : Bool) (reply : Reply) : Turn :=
  match visit, reply with
  | evict _ mount cycle, reply =>
    sweepOn mount.path mount.clock cancelled (MountSweep.count mount.report reply) mount.rest cycle
  | calls left replies, reply => callsOn left.tail (replies ++ [reply])
  | visit, .failed fault => visit.fail (.backend fault)
  | put _, _ => .answer .written
  | get key, .found entry => readOn key clock.read? entry
  | burn _ record, _ => .answer (.record record)
  | delete _, _ => .answer .deleted
  | list path cycle, .listed entries => listOn path clock.read? cancelled entries cycle
  | visit, _ => visit.fail .cancelled

end Visit

end RoutedCache

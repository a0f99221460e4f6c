import RoutedCache.Proofs.Cache.Doomed
import RoutedCache.Proofs.Cache.Locks

/-!
# The journal of a run

The journal of a run tells for each store which jobs have entered it under its lock, in the order in which they did,
and what came of it.  An `Act` is the effect of one such stay on a map from keys to records, and `replay` runs the
stays in a store one after the other.
-/

namespace RoutedCache

/-- The records of a map whose keys start with the given text. -/
def KeyMap.listing (entries : KeyMap Record) (start : String) : List KeyRecord :=
  (entries.toList.filter fun e => startsWith start e.1).map fun e => ⟨e.1, e.2⟩

/-- Removes those of the listed records that are doomed. -/
def KeyMap.sweepAway (entries : KeyMap Record) (path : String) (now : Instant) (reached : List KeyRecord) :
    KeyMap Record :=
  (reached.filter (KeyRecord.isDoomed path now)).foldl (fun entries entry => entries.erase entry.key) entries

/-- The replies to calls one after the other, and the records after them. -/
def performCalls (entries : KeyMap Record) (calls : List StoreCall) : List Reply × KeyMap Record :=
  calls.foldl (fun outcome call =>
    let (reply, entries) := performEntries outcome.2 call
    (outcome.1 ++ [reply], entries)) ([], entries)

/-- What comes of a stay in a store that serves every call. -/
inductive Act where
  /-- Nothing so far. -/
  | idle
  | write (entry : KeyRecord)
  /-- A read, with what the clock shows when it looks at the record. -/
  | read (key : String) (now : Option Instant)
  | delete (key : String)
  /-- The sweep of a mount, with the time of its listing and the number of listed records that it has not reached. -/
  | sweep (path : String) (now : Instant) (left : Nat)
  | calls (made : List StoreCall)
deriving DecidableEq, Repr

namespace Act

/-- The answer to a call and the records after the stay. -/
def apply (entries : KeyMap Record) : Act → Option Answer × KeyMap Record
  | idle => (none, entries)
  | write entry => (some .written, entries.insert entry.key entry.record)
  | read key now =>
    match entries.get? key, now with
    | none, _ => (some (.failed (.notFound key)), entries)
    | some _, none => (some .broken, entries)
    | some record, some now =>
      if record.isValidAt now then
        (some (.record record), if record.metadata.burnAfterReading then entries.erase key else entries)
      else (some (.failed (.notFound key)), entries)
  | delete key => (some .deleted, entries.erase key)
  | sweep path now left =>
    let listed := entries.listing path
    (none, entries.sweepAway path now (listed.take (listed.length - left)))
  | calls made =>
    let (replies, entries) := performCalls entries made
    (some (.replies replies), entries)

def made : Act → List StoreCall
  | calls made => made
  | _ => []

/-- What a run makes of the reply that its job has got. -/
def onReply (act : Act) (now : Option Instant) (cancelled : Bool) : Stage → Act
  | .returned _ (.get key) _ => read key now
  | .returned _ (.list path _) _ =>
    match cancelled, now with
    | false, some now => sweep path now 0
    | _, _ => act
  | .returned _ (.evict _ mount _) _ => if cancelled then act else sweep mount.path mount.clock 0
  | _ => act

/-- The effect of the call that a run has made. -/
def onCall (act : Act) : Stage → Act
  | .returned _ (.put entry) _ => write entry
  | .returned _ (.delete key) _ => delete key
  | .returned _ (.evict _ mount _) _ => sweep mount.path mount.clock mount.rest.length
  | .returned _ (.calls (call :: _) _) _ => calls (act.made ++ [call])
  | _ => act

end Act

/-- A stay of a job in a store under its lock. -/
structure Stay where
  job : JobId
  act : Act
deriving DecidableEq, Repr

/-- The records after stays one by one; the latest stay is the first of the list. -/
def replay (entries : KeyMap Record) : List Stay → KeyMap Record
  | [] => entries
  | stay :: before => (stay.act.apply (replay entries before)).2

structure Journal where
  /-- What the clock showed when a job began. -/
  started : JobId → Option Clock := fun _ => none
  /-- The stays in a store in the order in which its lock was obtained, the latest first. -/
  stays : Nat → List Stay := fun _ => []

namespace Journal

def change (journal : Journal) (store : Nat) (f : List Stay → List Stay) : Journal :=
  { journal with stays := fun s => if s = store then f (journal.stays s) else journal.stays s }

/-- The stays of a store after the latest one, if it is the job's, has gone on. -/
def amend (id : JobId) (f : Act → Act) : List Stay → List Stay
  | [] => []
  | stay :: before => if stay.job = id then { stay with act := f stay.act } :: before else stay :: before

/-- The journal with the time at which a job begins, if it does. -/
def begun (journal : Journal) (clock : Clock) (id : JobId) (stage : Stage) : Journal :=
  if stage = .ready then { journal with started := fun j => if j = id then some clock else journal.started j }
  else journal

/-- The journal after a change of stage: the job enters a store, is at work in it or is outside. -/
def moved (journal : Journal) (c : Cache) (id : JobId) (job : Job) (stage : Stage) : Journal :=
  match job.stage.inside?, stage.inside? with
  | some store, _ =>
    journal.change store
      (amend id fun act => (act.onReply c.clock.read? (c.isCancelled job.token) job.stage).onCall stage)
  | none, some store => journal.change store (⟨id, Act.idle.onCall stage⟩ :: ·)
  | none, none => journal

/-- The journal after an event. -/
def note (journal : Journal) (c : Cache) : Event → Journal
  | .run id =>
    match c.jobs[id]?, (c.run id).stage? id with
    | some job, some stage => (journal.begun c.clock id job.stage).moved c id job stage
    | _, _ => journal
  | _ => journal

def along (journal : Journal) (c : Cache) : List Event → Journal
  | [] => journal
  | event :: events => (journal.note c event).along (c.step event) events

end Journal

/-- The journal of a run from its first event on. -/
def Cache.journal (c : Cache) (events : List Event) : Journal := Journal.along {} c events

end RoutedCache

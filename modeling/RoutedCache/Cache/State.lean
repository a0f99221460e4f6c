import RoutedCache.Cache.Lock
import RoutedCache.Cache.Request

/-!
# The state of a cache

A cache has stores with their locks, a mount table that leads to them, and the jobs that were started on it.
A job that is over keeps its answer.
-/

namespace RoutedCache

/-- What a job can be cancelled by. -/
inductive Token where
  | never
  | shutdown
  | trip
  | call (number : Nat)
deriving DecidableEq, Repr

/-- Where a job stands.  From `pausing` on until it leaves the store it holds the lock. -/
inductive Stage where
  | ready
  /-- Before the next mount of a sweep. -/
  | between (cycle : SweepCycle)
  /-- Has asked for the lock of a store. -/
  | queued (store : Nat) (visit : Visit)
  /-- Waits with the lock before a call is made. -/
  | pausing (store : Nat) (visit : Visit) (due : Nat)
  /-- Has made a call.  One on documents is under way until the next turn, which gets the reply. -/
  | returned (store : Nat) (visit : Visit) (reply : Reply)
  /-- Keeps the lock until a time. -/
  | holding (store due : Nat)
  /-- The pause of the sweeper. -/
  | idle (due : Nat)
  /-- Waits for the end of another job. -/
  | awaiting (job : JobId)
  | finished (answer : Answer)
deriving DecidableEq, Repr

structure Job where
  request : Request
  token : Token := .never
  stage : Stage := .ready
deriving DecidableEq, Repr

/-- A store with its lock. -/
structure Shelf where
  store : Store
  lock : Lock := {}
  /-- What the next requests to the store fail with, those for its lock included; `none` stands for a request
  that is served, and so does every request after the last one listed. -/
  outages : List (Option StoreFault) := []
deriving DecidableEq

namespace Shelf

def outage? (shelf : Shelf) : Option StoreFault := shelf.outages.head?.join

/-- The shelf after one more request. -/
def requested (shelf : Shelf) : Shelf := { shelf with outages := shelf.outages.tail }

/-- Why the lock is refused at present. -/
def lockRefusal? (shelf : Shelf) : Option StoreFault := shelf.outage?.or shelf.store.lockRefusal?

/-- The outcome of a call.  A call that meets an outage is not made. -/
def perform (shelf : Shelf) (call : StoreCall) : Reply × Shelf :=
  match shelf.outage? with
  | some fault => (.failed fault, shelf.requested)
  | none =>
    let (reply, store) := shelf.store.perform call
    (reply, { shelf.requested with store })

end Shelf

structure Cache where
  mounts : MountTable Nat
  shelves : List Shelf
  /-- Milliseconds between two sweeps of the sweeper. -/
  interval : Nat
  /-- Milliseconds for the sweep of one mount. -/
  timeout : Nat
  jobs : List Job := []
  /-- The sweeper, until a shutdown has taken it over. -/
  sweeper : Option JobId := none
  counters : Counters := {}
  cancelled : List Token := []
  /-- Milliseconds since the start. -/
  time : Nat := 0
  clock : Clock

/-- No wait is longer than thirty years of 365 days, in milliseconds.  A time limit may be longer. -/
def longestWait : Nat := 946080000000

namespace Cache

/-- The time after a wait. -/
def after (c : Cache) (ms : Nat) : Nat := c.time + min ms longestWait

def isCancelled (c : Cache) (token : Token) : Bool := c.cancelled.contains token

def cancel (c : Cache) (token : Token) : Cache :=
  if token = .never then c else { c with cancelled := token :: c.cancelled }

def setStage (c : Cache) (id : JobId) (stage : Stage) : Cache :=
  { c with jobs := c.jobs.modify id fun job => { job with stage } }

def stage? (c : Cache) (id : JobId) : Option Stage := c.jobs[id]?.map (·.stage)

def answer? (c : Cache) (id : JobId) : Option Answer :=
  match c.stage? id with
  | some (.finished answer) => some answer
  | _ => none

def setLock (c : Cache) (store : Nat) (f : Lock → Lock) : Cache :=
  { c with shelves := c.shelves.modify store fun shelf => { shelf with lock := f shelf.lock } }

def holds (c : Cache) (store : Nat) (id : JobId) : Bool :=
  match c.shelves[store]? with
  | some shelf => shelf.lock.holder = some (.job id)
  | none => false

/-- The job is over and its answer is counted. -/
def finish (c : Cache) (id : JobId) (answer : Answer) : Cache :=
  { c.setStage id (.finished answer) with counters := c.counters.count answer }

/-- The sweep of all mounts, before the first one. -/
def fullCycle (c : Cache) : SweepCycle := { rest := c.mounts.mounts }

end Cache

end RoutedCache

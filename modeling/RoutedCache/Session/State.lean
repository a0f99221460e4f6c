import RoutedCache.Cache.Schedule
import RoutedCache.Session.Script

/-!
# The state of a session

A session has a disk, the stores that are open and a cache over them, unless the last build failed.  While
there is a cache it owns the stores.
-/

namespace RoutedCache

structure Session where
  disk : Disk := .fresh
  /-- The open stores by name, in the order in which they were opened. -/
  stores : List (String × Store) := []
  /-- Stores in memory that the build before has left. -/
  kept : List (String × Store) := []
  schedule : Option Schedule := none
  tripped : Bool := false
  time : Nat := 0
  clock : Clock
  /-- The counters after the last action that left a cache. -/
  counters : Option Counters := none
  /-- The files that document stores were asked for. -/
  paths : List String := []

namespace Session

/-- Stops the cache and takes the stores back. -/
def takeDown (s : Session) : Session :=
  match s.schedule with
  | none => s
  | some schedule =>
    let cache := (schedule.call .shutdown .never).1.cache
    { s with
      schedule := none
      stores := (s.stores.zip cache.shelves).map fun (old, shelf) => (old.1, shelf.store)
      tripped := cache.isCancelled .trip
      time := cache.time
      clock := cache.clock }

/-- Closes the open stores; those in memory are kept for the next build, and for that one alone. -/
def closeAll (s : Session) : Session :=
  let isDocument : Store → Bool | .document .. => true | _ => false
  { s with
    disk := s.stores.foldl (fun disk entry => disk.closeStore entry.2) s.disk
    stores := []
    kept := s.stores.filter fun entry => !isDocument entry.2 }

def kept? (s : Session) (name kind : String) : Option Store :=
  (s.kept.find? fun old => old.1 = name && old.2.kind = kind).map (·.2)

/-- Adds an open store; one that has been open under its name is closed. -/
def add (s : Session) (name : String) (store : Store) : Session :=
  let (replaced, others) := s.stores.partition fun entry => entry.1 = name
  { s with
    disk := replaced.foldl (fun disk entry => disk.closeStore entry.2) s.disk
    stores := others ++ [(name, store)] }

/-- Opens one more store; a store in memory with the same name and kind as a kept one is that one. -/
def openStore (s : Session) (setup : StoreSetup) : Session × Option OpenFault :=
  match setup.kind with
  | .memory => (s.add setup.name ((s.kept? setup.name "memory").getD (.memory .empty)), none)
  | .faulty faults => (s.add setup.name ((s.kept? setup.name "faulty").getD (.faulty faults .empty)), none)
  | .document file collection =>
    let s := { s with paths := s.paths ++ [file] }
    match s.disk.openStore file collection with
    | (disk, .error fault) => ({ s with disk }, some fault)
    | (disk, .ok store) => ({ s with disk }.add setup.name store, none)

/-- Opens stores in order, up to the first that cannot be opened. -/
def openAll (s : Session) : List StoreSetup → Session × Option OpenFault
  | [] => (s, none)
  | setup :: rest =>
    match s.openStore setup with
    | (s, some fault) => (s, some fault)
    | (s, none) => s.openAll rest

/-- A cache over the open stores, whose sweeper is about to begin. -/
def freshCache (s : Session) (setup : Setup) (mounts : MountTable Nat) : Cache :=
  { mounts
    shelves := s.stores.map fun entry => { store := entry.2 }
    interval := setup.intervalMillis
    timeout := setup.timeoutMillis
    jobs := [{ request := .sweeper, token := .shutdown }]
    sweeper := some 0
    cancelled := if s.tripped then [.trip] else []
    time := s.time
    clock := s.clock }

/-- The mounts with the places of their stores. -/
def bindings (s : Session) (setup : Setup) : List (String × Nat) :=
  setup.mounts.filterMap fun mount =>
    (s.stores.findIdx? fun entry => entry.1 = mount.2).map fun store => (mount.1, store)

/-- Opens the stores and builds a cache on them. -/
def build (s : Session) (setup : Setup) : Session × BuildOutcome :=
  match s.openAll setup.stores with
  | (s, some fault) => (s, .unopened fault)
  | (s, none) =>
    match MountTable.ofBindings (s.bindings setup) with
    | .error e => (s, .refused e)
    | .ok mounts =>
      let schedule : Schedule := { cache := s.freshCache setup mounts }
      ({ s with schedule := some (schedule.turn 0) }, .mounted mounts.paths)

end Session

end RoutedCache

import RoutedCache.Cache.Request
import RoutedCache.Config
import RoutedCache.Disk

/-!
# Scripts

A script sets up stores and a cache and says what to do with them, step by step.
-/

namespace RoutedCache

inductive StoreKind where
  | memory
  | document (file collection : String)
  | faulty (faults : Faults)
deriving DecidableEq, Repr

structure StoreSetup where
  name : String
  kind : StoreKind
deriving DecidableEq, Repr

/-- The stores to open, the paths they are mounted at and the times of the sweeper. -/
structure Setup where
  stores : List StoreSetup := []
  /-- Paths with the names of stores. -/
  mounts : List (String × String) := []
  environment : Option Environment := none
  /-- Milliseconds that win over the configuration. -/
  interval : Option Nat := none
  timeout : Option Nat := none

namespace Setup

def config (setup : Setup) : Config :=
  match setup.environment with
  | some env => .ofEnvironment env
  | none => {}

def intervalMillis (setup : Setup) : Nat := setup.interval.getD (setup.config.sweepInterval * 1000)

def timeoutMillis (setup : Setup) : Nat := setup.timeout.getD (setup.config.sweepTimeout * 1000)

end Setup

/-- When a call is cancelled. -/
inductive Cancellation where
  | never
  | before
  | after (ms : Nat)
  | trip
  | shutdown
deriving DecidableEq, Repr

inductive Action where
  | call (request : Request) (cancellation : Cancellation)
  /-- Calls that start at the same moment. -/
  | parallel (calls : List (Request × Cancellation))
  | stats
  | mounts
  | advance (ms : Nat)
  | setClock (t : Instant)
  | hold (store : String) (ms : Nat)
  | store (store : String) (cancellation : Cancellation) (calls : List StoreCall)
  | dump
  | shutdown
  | cancelShutdown
  | restart (setup : Setup)

/-- The records of a store, or why they cannot be listed. -/
abbrev Listing := Except CacheError (List KeyRecord)

inductive BuildOutcome where
  | mounted (paths : List String)
  | refused (error : CacheError)
  | unopened (fault : OpenFault)
deriving DecidableEq, Repr

inductive ActionAnswer where
  | answer (answer : Answer)
  /-- The answers with their times. -/
  | answers (answers : List (Answer × Nat))
  | stats (counters : Counters)
  | mounts (paths : List String)
  | clock (t : Instant)
  | held
  | store (kind : String) (replies : List Reply)
  | dump (stores : List (String × Listing))
  | built (outcome : BuildOutcome)

structure Script where
  now : Instant
  /-- Plain files that exist before anything is opened. -/
  files : List (String × Bytes) := []
  /-- Documents, or tables of another type, in database files. -/
  seeds : List (String × String × Option (String × Bytes)) := []
  setup : Setup := {}
  actions : List Action := []

structure Transcript where
  build : BuildOutcome
  /-- The answers with the times at which the actions ended. -/
  answers : List (ActionAnswer × Nat)
  counters : Option Counters
  stores : List (String × Listing)
  /-- The databases by the names of their files. -/
  databases : List (String × Database)

end RoutedCache

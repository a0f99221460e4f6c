import RoutedCache.Cache.Step
import RoutedCache.Config
import RoutedCache.Disk
import RoutedCache.Log.Filter

/-!
# The cache service

The service mounts a store in memory and a document store as its configuration says, keeps them swept until
a signal comes and reports what it does in a log.  A fault at the start ends it with a report on the error
stream.
-/

namespace RoutedCache

inductive Signal where
  | terminate
  | interrupt
deriving DecidableEq, Repr

/-- An error with its causes, the outermost one first. -/
structure FaultReport where
  message : String
  causes : List String
deriving DecidableEq, Repr

namespace FaultReport

/-- A cause after its mark, with what follows a line feed below its beginning. -/
def causeText (mark cause : String) : String :=
  mark ++ ("\n" ++ String.ofList (List.replicate mark.length ' ')).intercalate (cause.splitOn "\n")

/-- The report with numbered causes if there are several. -/
def text (report : FaultReport) : String :=
  let causes := match report.causes with
    | [cause] => [causeText "    " cause]
    | causes => causes.zipIdx.map fun cause => causeText s!"    {cause.2}: " cause.1
  "\n".intercalate (["Error: " ++ report.message, "", "Caused by:"] ++ causes)

def lines (report : FaultReport) : List String := linesOf report.text

end FaultReport

inductive StartFault where
  | reported (report : FaultReport)
  /-- A collection without a name stops the program. -/
  | stopped
deriving DecidableEq, Repr

namespace Service

def name : String := "mountable_cache"

def info (message : String) : LogLine := ⟨.info, name, message⟩

def sweeperInfo (message : String) : LogLine := ⟨.info, name ++ "::tasks::sweeper", message⟩

/-- The filter named by the environment, or the one that shows what the service itself has to say; `none` if
the program is stopped. -/
def filter? (env : Environment) : Option LogFilter :=
  match (env.text? "RUST_LOG").map LogFilter.parse with
  | some (.ok filter) => some filter
  | some (.error .torn) => none
  | _ => some [{ target := some name, rank := LogLevel.info.rank }]

/-- A length of whole seconds. -/
def secondsText (seconds : Nat) : String := if seconds = 0 then "0ns" else s!"{seconds}s"

/-- An error of an inner layer, by itself and with the name of the layer in front. -/
def layered (layer cause : String) : List String := [layer ++ ": " ++ cause, cause]

/-- What is reported when a store cannot be opened, with the outermost cause first. -/
def openFault (path : String) (fault : OpenFault) : StartFault :=
  let report (causes : List String) : StartFault :=
    .reported ⟨"failed to open document store at " ++ path, causes⟩
  match fault with
  | .above fault => report (layered "io error" fault.message)
  | .path fault => report (layered "redb error" ("I/O error: " ++ fault.message))
  | .locked => report (layered "redb error" "Database already open. Cannot acquire lock.")
  | .content => report (layered "redb error" "I/O error: invalid data")
  | .collection => report (layered "redb table error" "the collection has another type")
  | .unnamed => .stopped

/-- The log of the start and the cache, or the fault that ends it. -/
def start (env : Environment) (disk : Disk) : List LogLine × Except StartFault Cache :=
  let config := Config.ofEnvironment env
  let log := [info "Starting Mountable Cache",
    info (s!"Configuration loaded: sweep_interval={config.sweepInterval}s, " ++
      s!"sweep_timeout={config.sweepTimeout}s, document_path=" ++ config.documentPath)]
  match disk.openStore config.documentPath config.documentCollection with
  | (_, .error fault) => (log, .error (openFault config.documentPath fault))
  | (_, .ok documents) =>
    let log := log ++ [⟨.debug, name ++ "::store::document",
      "Opened document store " ++ config.documentPath ++ " (collection " ++ config.documentCollection ++ ")"⟩]
    match MountTable.ofBindings [(config.memoryMount, 0), (config.persistMount, 1)] with
    | .error e => (log, .error (.reported ⟨"failed to build cache", [e.message]⟩))
    | .ok mounts =>
      let cache : Cache :=
        { mounts
          shelves := [{ store := .memory .empty }, { store := documents }]
          interval := config.sweepInterval * 1000
          timeout := config.sweepTimeout * 1000
          jobs := [{ request := .sweeper, token := .shutdown }]
          sweeper := some 0
          clock := default }
      (log ++ [sweeperInfo ("Starting sweeper with interval of " ++ secondsText config.sweepInterval),
        info ("Cache ready with mounts " ++ quoteList mounts.paths)], .ok (cache.step (.run 0)))

def signalText : Signal → String
  | .terminate => "Received SIGTERM, initiating shutdown..."
  | .interrupt => "Received Ctrl+C, initiating shutdown..."

/-- The cache after a shutdown that finds the sweeper in its pause. -/
def shutDown (cache : Cache) : Cache :=
  let job := cache.jobs.length
  cache.steps [.start .shutdown .never, .run job, .run 0, .run job]

/-- The log of the end. -/
def stop (cache : Cache) (signal : Signal) : List LogLine :=
  let counters := (shutDown cache).counters
  [info (signalText signal), sweeperInfo "Sweeper stopped",
    info (s!"Final stats: writes={counters.writes}, hits={counters.hits}, " ++
      s!"misses={counters.misses}, evicted={counters.evicted}"),
    info "Shutdown complete"]

/-- The exit code, the lines of the log that are shown and the lines of the error stream. -/
structure Run where
  exitCode : Nat
  log : List LogLine
  errors : List String

/-- A run that ends with a signal or with a fault at the start; `none` if the program is stopped. -/
def run (env : Environment) (disk : Disk) (signal : Signal) : Option Run := do
  let filter ← filter? env
  let shown (log : List LogLine) : List LogLine := log.filter filter.shows
  match start env disk with
  | (_, .error .stopped) => none
  | (log, .error (.reported report)) => some { exitCode := 1, log := shown log, errors := report.lines }
  | (log, .ok cache) => some { exitCode := 0, log := shown (log ++ stop cache signal), errors := [] }

end Service

end RoutedCache

import RoutedCache.Service

/-!
# Command line

The service takes its settings from the environment.  It runs until its standard input ends and stops as on an
interrupt.
-/

namespace RoutedCache

/-- The variables that the service looks at. -/
def settingNames : List String :=
  ["SWEEP_INTERVAL", "SWEEP_TIMEOUT", "MEMORY_MOUNT", "PERSIST_MOUNT", "DOCUMENT_STORE_PATH",
    "DOCUMENT_COLLECTION", "RUST_LOG"]

def readSettings : IO Environment :=
  settingNames.foldlM (fun env name => do
    match ← IO.getEnv name with
    | some value => return env.insert name (utf8 value)
    | none => return env) KeyMap.empty

def printLog (filter : LogFilter) (log : List LogLine) : IO Unit :=
  (log.filter filter.shows).forM fun line => IO.println line.text

partial def waitForEnd (input : IO.FS.Stream) : IO Unit := do
  let line ← input.getLine
  if line.isEmpty then return () else waitForEnd input

end RoutedCache

open RoutedCache in
def main : IO UInt32 := do
  let env ← readSettings
  let some filter := Service.filter? env | return 101
  match Service.start env .fresh with
  | (log, .error .stopped) =>
    printLog filter log
    return 101
  | (log, .error (.reported report)) =>
    printLog filter log
    IO.eprintln report.text
    return 1
  | (log, .ok cache) =>
    printLog filter log
    waitForEnd (← IO.getStdin)
    printLog filter (Service.stop cache .interrupt)
    return 0

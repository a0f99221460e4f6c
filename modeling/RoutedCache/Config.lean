import RoutedCache.Bytes
import RoutedCache.KeyMap
import RoutedCache.Text.Digits
import RoutedCache.Time.Duration

/-!
# Configuration

A configuration is read from environment variables.  A variable that is not set, is not UTF-8 or does not
hold a number where one is needed leaves the default in place.
-/

namespace RoutedCache

/-- Environment variables with their values as bytes. -/
abbrev Environment := KeyMap Bytes

def Environment.text? (env : Environment) (name : String) : Option String :=
  (env.get? name).bind Bytes.text?

def Environment.word? (env : Environment) (name : String) : Option Nat := (env.text? name).bind readWord?

structure Config where
  /-- Seconds between two sweeps. -/
  sweepInterval : Nat := 60
  /-- The longest time in seconds that the sweep of one mount takes. -/
  sweepTimeout : Nat := 30
  memoryMount : String := "memory"
  persistMount : String := "persist"
  documentPath : String := "data/cache.redb"
  documentCollection : String := "cache"
deriving DecidableEq, Repr, Inhabited

namespace Config

def ofEnvironment (env : Environment) : Config :=
  let defaults : Config := {}
  { sweepInterval := (env.word? "SWEEP_INTERVAL").getD defaults.sweepInterval
    sweepTimeout := (env.word? "SWEEP_TIMEOUT").getD defaults.sweepTimeout
    memoryMount := (env.text? "MEMORY_MOUNT").getD defaults.memoryMount
    persistMount := (env.text? "PERSIST_MOUNT").getD defaults.persistMount
    documentPath := (env.text? "DOCUMENT_STORE_PATH").getD defaults.documentPath
    documentCollection := (env.text? "DOCUMENT_COLLECTION").getD defaults.documentCollection }

def sweepIntervalLength (config : Config) : Duration := { seconds := config.sweepInterval }

def sweepTimeoutLength (config : Config) : Duration := { seconds := config.sweepTimeout }

end Config

end RoutedCache

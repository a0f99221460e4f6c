import RoutedCache.MountTable
import RoutedCache.Store

/-!
# Sweeps

A sweep goes over the mounts in the order of their paths.  In each mount it lists the records, keeps those
that are still valid at the time of the listing and deletes the other ones that belong to the mount.
-/

namespace RoutedCache

structure SweepReport where
  deleted : Nat := 0
  failed : Nat := 0
  valid : Nat := 0
  skippedMounts : Nat := 0
deriving DecidableEq, Repr, Inhabited

def SweepReport.merge (a b : SweepReport) : SweepReport :=
  { deleted := a.deleted + b.deleted
    failed := a.failed + b.failed
    valid := a.valid + b.valid
    skippedMounts := a.skippedMounts + b.skippedMounts }

/-- A sweep under way: the mounts that are left, the report so far and the time by which the current mount
has to be finished. -/
structure SweepCycle where
  rest : List (String × Nat)
  total : SweepReport := {}
  deadline : Nat := 0
deriving DecidableEq, Repr

namespace SweepCycle

def skip (cycle : SweepCycle) : SweepCycle := { cycle with total := cycle.total.merge { skippedMounts := 1 } }

def add (cycle : SweepCycle) (report : SweepReport) : SweepCycle :=
  { cycle with total := cycle.total.merge report }

end SweepCycle

/-- The sweep of one mount after its listing. -/
structure MountSweep where
  path : String
  /-- The clock at the listing. -/
  clock : Instant
  rest : List KeyRecord
  report : SweepReport := {}
deriving DecidableEq, Repr

namespace MountSweep

/-- Goes on to the next record to delete; without one the mount is finished.  A cancelled sweep stops at the
next record that belongs to the mount. -/
def next (path : String) (clock : Instant) (cancelled : Bool) (report : SweepReport) :
    List KeyRecord → Except SweepReport (KeyRecord × MountSweep)
  | [] => .error report
  | entry :: rest =>
    if !MountTable.owns path entry.key then next path clock cancelled report rest
    else if cancelled then .error report
    else if entry.record.isValidAt clock then
      next path clock cancelled { report with valid := report.valid + 1 } rest
    else .ok (entry, ⟨path, clock, rest, report⟩)

/-- The report with the outcome of a deletion. -/
def count (report : SweepReport) : Reply → SweepReport
  | .failed _ => { report with failed := report.failed + 1 }
  | _ => { report with deleted := report.deleted + 1 }

end MountSweep

end RoutedCache

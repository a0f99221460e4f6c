import RoutedCache.Cache.Request

/-!
# Doomed records

A sweep of a mount removes the records that belong to the mount and are not valid at its time, one after the other
in the order of their listing, and it ends when there are none left (`Visit.sweepOn_cases`).
-/

namespace RoutedCache

/-- The request of a job that goes over the mounts. -/
def Request.Sweeps (request : Request) : Prop := request = .sweep ∨ request = .sweeper

/-- Whether a sweep of the mount at the given time removes a record: it belongs to the mount and is expired. -/
def KeyRecord.isDoomed (path : String) (now : Instant) (entry : KeyRecord) : Bool :=
  MountTable.owns path entry.key && !entry.record.isValidAt now

private theorem MountSweep.next_eq_ok {path : String} {clock : Instant} {cancelled : Bool}
    {report : SweepReport} {entries : List KeyRecord} {entry : KeyRecord} {mount : MountSweep}
    (h : next path clock cancelled report entries = .ok (entry, mount)) :
    mount.path = path ∧ mount.clock = clock ∧ entry.isDoomed path clock = true ∧
      ∃ skipped, entries = skipped ++ entry :: mount.rest ∧ ∀ e ∈ skipped, e.isDoomed path clock = false := by
  induction entries generalizing report with
  | nil => cases h
  | cons first rest ih =>
    have hskip (h : next path clock cancelled report rest = .ok (entry, mount) ∨
        next path clock cancelled { report with valid := report.valid + 1 } rest = .ok (entry, mount))
        (hfirst : first.isDoomed path clock = false) :
        mount.path = path ∧ mount.clock = clock ∧ entry.isDoomed path clock = true ∧
          ∃ skipped, first :: rest = skipped ++ entry :: mount.rest ∧
            ∀ e ∈ skipped, e.isDoomed path clock = false := by
      obtain ⟨hpath, hclock, hdoomed, skipped, heq, hall⟩ := h.elim ih ih
      refine ⟨hpath, hclock, hdoomed, first :: skipped, by rw [heq, List.cons_append], ?_⟩
      intro e he
      rcases List.mem_cons.1 he with rfl | he
      · exact hfirst
      · exact hall e he
    unfold next at h
    split at h
    next howns => exact hskip (.inl h) (by simpa [KeyRecord.isDoomed] using fun ho => by simp [ho] at howns)
    next howns =>
      split at h
      next => cases h
      next =>
        split at h
        next hvalid => exact hskip (.inr h) (by simp [KeyRecord.isDoomed, hvalid])
        next hvalid =>
          cases h
          refine ⟨rfl, rfl, ?_, [], rfl, fun e he => nomatch he⟩
          simpa [KeyRecord.isDoomed, hvalid] using howns

/-- A sweep that is not cancelled stops for a doomed record only. -/
private theorem MountSweep.next_eq_error {path : String} {clock : Instant} {report report' : SweepReport}
    {entries : List KeyRecord} (h : next path clock false report entries = .error report') :
    ∀ e ∈ entries, e.isDoomed path clock = false := by
  induction entries generalizing report with
  | nil => exact fun e he => nomatch he
  | cons first rest ih =>
    unfold next at h
    intro e he
    split at h
    next howns =>
      rcases List.mem_cons.1 he with rfl | he
      · simpa [KeyRecord.isDoomed] using fun ho => by simp [ho] at howns
      · exact ih h e he
    next =>
      rw [if_neg Bool.false_ne_true] at h
      split at h
      next hvalid =>
        rcases List.mem_cons.1 he with rfl | he
        · simp [KeyRecord.isDoomed, hvalid]
        · exact ih h e he
      next => cases h

/-- A cancelled sweep has no more entries to delete. -/
theorem MountSweep.next_cancelled (path : String) (now : Instant) (report : SweepReport) (entries : List KeyRecord) :
    ∃ report', next path now true report entries = .error report' := by
  induction entries with
  | nil => exact ⟨report, rfl⟩
  | cons entry rest ih =>
    rw [next]
    split
    next => exact ih
    next => exact ⟨report, rfl⟩

/-- A sweep goes on to the first doomed record, or it leaves the mount: there is no doomed one left unless the
sweep has been cancelled. -/
theorem Visit.sweepOn_cases (path : String) (now : Instant) (cancelled : Bool) (report : SweepReport)
    (rest : List KeyRecord) (cycle : SweepCycle) :
    (∃ report', sweepOn path now cancelled report rest cycle = .move (cycle.add report') ∧
      (cancelled = false → ∀ e ∈ rest, e.isDoomed path now = false)) ∨
    ∃ entry mount skipped, sweepOn path now cancelled report rest cycle = .stay (.evict entry.key mount cycle) ∧
      mount.path = path ∧ mount.clock = now ∧ entry.isDoomed path now = true ∧
      rest = skipped ++ entry :: mount.rest ∧ ∀ e ∈ skipped, e.isDoomed path now = false := by
  unfold sweepOn
  cases hnext : MountSweep.next path now cancelled report rest with
  | error report' =>
    refine .inl ⟨report', rfl, ?_⟩
    rintro rfl
    exact MountSweep.next_eq_error hnext
  | ok found =>
    obtain ⟨entry, mount⟩ := found
    obtain ⟨hpath, hclock, hdoomed, skipped, hrest, hskipped⟩ := MountSweep.next_eq_ok hnext
    exact .inr ⟨entry, mount, skipped, rfl, hpath, hclock, hdoomed, hrest, hskipped⟩

/-- To go on to the next record to delete counts no failure. -/
private theorem MountSweep.failed_next (path : String) (clock : Instant) (cancelled : Bool) (report : SweepReport)
    (entries : List KeyRecord) :
    (∀ report', next path clock cancelled report entries = .error report' → report'.failed = report.failed) ∧
      ∀ entry mount, next path clock cancelled report entries = .ok (entry, mount) →
        mount.report.failed = report.failed := by
  induction entries generalizing report with
  | nil =>
    refine ⟨fun report' h => ?_, fun entry mount h => nomatch h⟩
    cases h
    rfl
  | cons first rest ih =>
    unfold next
    split
    next => exact ih report
    next =>
      split
      next =>
        refine ⟨fun report' h => ?_, fun entry mount h => nomatch h⟩
        cases h
        rfl
      next =>
        split
        next => exact ih { report with valid := report.valid + 1 }
        next =>
          refine ⟨nofun, fun entry mount h => ?_⟩
          cases h
          rfl

theorem Visit.failed_sweepOn_move {path : String} {now : Instant} {cancelled : Bool} {report : SweepReport}
    {rest : List KeyRecord} {cycle cycle' : SweepCycle}
    (h : sweepOn path now cancelled report rest cycle = .move cycle') :
    cycle'.total.failed = cycle.total.failed + report.failed := by
  unfold sweepOn at h
  split at h
  next report' hnext =>
    cases h
    show cycle.total.failed + report'.failed = _
    rw [(MountSweep.failed_next ..).1 report' hnext]
  next => cases h

theorem Visit.failed_sweepOn_stay {path key : String} {now : Instant} {cancelled : Bool} {report : SweepReport}
    {rest : List KeyRecord} {mount : MountSweep} {cycle cycle' : SweepCycle}
    (h : sweepOn path now cancelled report rest cycle = .stay (.evict key mount cycle')) :
    mount.report.failed = report.failed := by
  unfold sweepOn at h
  split at h
  next => cases h
  next entry mount' hnext =>
    cases h
    exact (MountSweep.failed_next ..).2 entry mount hnext

end RoutedCache

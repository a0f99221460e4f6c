import Mathlib.Data.List.Induction
import RoutedCache.Proofs.Cache.Answers

/-!
# The rounds of the sweeps

A sweep goes over the mounts in rounds: one that was called for makes one round, the sweeper makes one after the
other.  `Cache.rounds` writes down for each job the rounds that it has begun, with its passes over the mounts: the
listing that a pass took up, the deletions that it made, the way in which it left the mount and its share of the
report.  The log is read off the stages before and after the turns of the job and does nothing to the run
(`LocksSound.note_cases`).
-/

namespace RoutedCache

/-- What a report has more than one before it. -/
def SweepReport.growth (after before : SweepReport) : SweepReport :=
  { deleted := after.deleted - before.deleted
    failed := after.failed - before.failed
    valid := after.valid - before.valid
    skippedMounts := after.skippedMounts - before.skippedMounts }

@[simp] theorem SweepReport.growth_merge (before report : SweepReport) :
    (before.merge report).growth before = report := by
  simp only [growth, merge, Nat.add_sub_cancel_left]

/-- A deletion that a sweep has made: the number of the event, the key and the reply. -/
structure Deletion where
  turn : Nat
  key : String
  reply : Reply
deriving DecidableEq, Repr

def Deletion.refused (deletion : Deletion) : Bool :=
  match deletion.reply with
  | .failed _ => true
  | _ => false

/-- A listing that a sweep has taken up: the number of the event, the time that the clock showed then, and the
entries. -/
structure Showing where
  turn : Nat
  now : Instant
  entries : List KeyRecord
deriving DecidableEq, Repr

/-- How a pass over a mount comes to its end. -/
inductive Fate where
  /-- All that was listed has been dealt with, or the sweep was cancelled on the way. -/
  | swept
  /-- The lock or the listing was not to be had. -/
  | failed
  /-- The time for the mount was over. -/
  | expired
deriving DecidableEq, Repr

/-- What a sweep has done in one mount. -/
structure MountPass where
  path : String
  store : Nat
  listing : Option Showing := none
  deletions : List Deletion := []
  fate : Option Fate := none
  /-- What the report of the sweep has gained by the pass. -/
  share : SweepReport := {}
deriving DecidableEq, Repr

/-- A round over all mounts: the number of its first event, the passes, the latest first, and for a round that
has come to its end the number of the last event and the report. -/
structure Round where
  begun : Nat
  passes : List MountPass := []
  ended : Option (Nat × SweepReport) := none
deriving DecidableEq, Repr

/-- The rounds of each job, the latest first. -/
abbrev Rounds := JobId → List Round

/-- How a pass ends if its sweep leaves the mount from this stage. -/
def Stage.fate : Stage → Fate
  | .returned _ (.list ..) (.listed _) => .swept
  | .returned _ (.evict ..) _ => .swept
  | _ => .failed

namespace MountPass

def place (pass : MountPass) : String × Nat := (pass.path, pass.store)

/-- The entries that the pass has removed. -/
def removals (pass : MountPass) : Nat := pass.deletions.countP (!·.refused)

/-- The deletions that were refused to the pass. -/
def refusals (pass : MountPass) : Nat := pass.deletions.countP (·.refused)

def takenUp (turn : Nat) (now : Option Instant) (old : Stage) (pass : MountPass) : MountPass :=
  match old, now with
  | .returned _ (.list ..) (.listed entries), some now => { pass with listing := some ⟨turn, now, entries⟩ }
  | _, _ => pass

def deleted (turn : Nat) (new : Stage) (pass : MountPass) : MountPass :=
  match new with
  | .returned _ (.evict key _ _) reply => { pass with deletions := pass.deletions ++ [⟨turn, key, reply⟩] }
  | _ => pass

def left (before : SweepReport) (fate : Fate) (new : Stage) (pass : MountPass) : MountPass :=
  match new with
  | .between cycle => { pass with fate := some fate, share := cycle.total.growth before }
  | _ => pass

/-- The pass after a turn of its sweep, whose report was this one before. -/
def turned (turn : Nat) (now : Option Instant) (before : SweepReport) (old new : Stage) (pass : MountPass) :
    MountPass :=
  ((pass.takenUp turn now old).deleted turn new).left before old.fate new

variable (turn : Nat) (now : Option Instant) (before : SweepReport) (fate : Fate) (old new : Stage)
  (pass : MountPass)

@[simp] theorem place_takenUp : (pass.takenUp turn now old).place = pass.place := by
  unfold takenUp
  split <;> rfl

@[simp] theorem place_deleted : (pass.deleted turn new).place = pass.place := by
  unfold deleted
  split <;> rfl

@[simp] theorem place_left : (pass.left before fate new).place = pass.place := by
  unfold left
  split <;> rfl

@[simp] theorem place_turned : (pass.turned turn now before old new).place = pass.place := by
  simp [turned]

end MountPass

namespace Round

/-- The round with a change to its latest pass. -/
def onPass (f : MountPass → MountPass) (round : Round) : Round :=
  { round with passes := round.passes.modifyHead f }

/-- The round after a turn between two mounts. -/
def entered (turn : Nat) (now : Option Instant) (cycle : SweepCycle) (new : Stage) (round : Round) : Round :=
  match new, cycle.rest with
  | .idle _, _ | .finished _, _ => { round with ended := some (turn, cycle.total) }
  | new, (path, store) :: _ =>
    let pass : MountPass := { path, store }
    { round with passes := pass.turned turn now cycle.total (.between cycle) new :: round.passes }
  | _, [] => round

/-- The rounds of a job after a turn outside of all rounds. -/
def started (turn : Nat) (new : Stage) (rounds : List Round) : List Round :=
  match new with
  | .between _ => { begun := turn } :: rounds
  | _ => rounds

/-- The rounds of a job after a turn that has taken it from one stage to another. -/
def turned (turn : Nat) (now : Option Instant) (old new : Stage) (rounds : List Round) : List Round :=
  if old = new then rounds
  else
    match old.sweeping?, old with
    | some (_, cycle), _ => rounds.modifyHead (onPass (MountPass.turned turn now cycle.total old new))
    | none, .between cycle => rounds.modifyHead (entered turn now cycle new)
    | none, _ => started turn new rounds

/-- The rounds of a job after the end of the time for a mount. -/
def expired (old new : Stage) (rounds : List Round) : List Round :=
  match old.sweeping? with
  | some (_, cycle) =>
    if old = new then rounds else rounds.modifyHead (onPass (MountPass.left cycle.total .expired new))
  | none => rounds

end Round

namespace Rounds

def set (rounds : Rounds) (id : JobId) (mine : List Round) : Rounds := fun j => if j = id then mine else rounds j

/-- The log after one more event. -/
def note (rounds : Rounds) (turn : Nat) (c : Cache) : Event → Rounds
  | .run id =>
    match c.stage? id, (c.run id).stage? id with
    | some old, some new => rounds.set id (Round.turned turn c.clock.read? old new (rounds id))
    | _, _ => rounds
  | .expire id =>
    match c.stage? id, (c.expire id).stage? id with
    | some old, some new => rounds.set id (Round.expired old new (rounds id))
    | _, _ => rounds
  | _ => rounds

def along (rounds : Rounds) (turn : Nat) (c : Cache) : List Event → Rounds
  | [] => rounds
  | event :: events => (rounds.note turn c event).along (turn + 1) (c.step event) events

end Rounds

/-- The rounds that the jobs have begun in a run. -/
def Cache.rounds (c : Cache) (events : List Event) : Rounds := Rounds.along (fun _ => []) 0 c events

theorem Rounds.along_snoc (rounds : Rounds) (turn : Nat) (c : Cache) (events : List Event) (event : Event) :
    rounds.along turn c (events ++ [event]) =
      (rounds.along turn c events).note (turn + events.length) (c.steps events) event := by
  induction events generalizing rounds turn c with
  | nil => rfl
  | cons first events ih =>
    rw [List.cons_append, along, ih, along, List.length_cons, Nat.add_right_comm, Nat.add_assoc]
    rfl

namespace Cache

theorem rounds_snoc (c : Cache) (events : List Event) (event : Event) :
    c.rounds (events ++ [event]) = (c.rounds events).note events.length (c.steps events) event := by
  rw [rounds, Rounds.along_snoc, Nat.zero_add]
  rfl

variable {c : Cache} {id : JobId} {job : Job} {event : Event} {rounds : Rounds} {turn : Nat}

private theorem note_eq (rounds : Rounds) (turn : Nat) (c : Cache) (event : Event) :
    rounds.note turn c event = rounds ∨ ∃ j mine, event.Moves j ∧ rounds.note turn c event = rounds.set j mine := by
  cases event with
  | run j =>
    simp only [Rounds.note]
    split
    next => exact .inr ⟨j, _, rfl, rfl⟩
    next => exact .inl rfl
  | expire j =>
    simp only [Rounds.note]
    split
    next => exact .inr ⟨j, _, rfl, rfl⟩
    next => exact .inl rfl
  | _ => exact .inl rfl

/-- The log of a job hangs on its own turns. -/
theorem note_other (hm : ¬event.Moves id) : rounds.note turn c event id = rounds id := by
  rcases note_eq rounds turn c event with heq | ⟨j, mine, hj, heq⟩
  · rw [heq]
  · have hne : id ≠ j := by
      rintro rfl
      exact hm hj
    rw [heq]
    exact if_neg hne

theorem note_absent (hj : c.jobs[id]? = none) : rounds.note turn c event id = rounds id := by
  by_cases hm : event.Moves id
  · have hstage : c.stage? id = none := by simp [stage?, hj]
    cases event with
    | run j =>
      obtain rfl : j = id := hm
      simp only [Rounds.note, hstage]
    | expire j =>
      obtain rfl : j = id := hm
      simp only [Rounds.note, hstage]
    | _ => rfl
  · exact note_other hm

/-- What an event comes to for a job and for its log. -/
inductive Noted (c : Cache) (id : JobId) (job : Job) (event : Event) (turn : Nat) (rounds rounds' : List Round)
    (next : Cache) : Prop
  | same (hm : event.Moves id → next = c) (hj : next.jobs[id]? = some job) (hr : rounds' = rounds)
      (hw : event = .run id → ∀ s visit reply, job.stage ≠ .returned s visit reply)
  | turn {new shelves} (he : event = .run id) (ht : Transition c id job job.stage new shelves)
      (hs : next.stores = storesOn shelves) (hc : next.counters = c.counters.tally job.stage new)
      (hj : next.jobs[id]? = some { job with stage := new })
      (hr : rounds' = Round.turned turn c.clock.read? job.stage new rounds)
  | skip {new shelves} (he : event = .expire id) (hx : Expiry c id job.stage new shelves)
      (hs : next.stores = c.stores) (hc : next.counters = c.counters)
      (hj : next.jobs[id]? = some { job with stage := new })
      (hr : rounds' = Round.expired job.stage new rounds)

theorem LocksSound.note_cases (h : c.LocksSound) (hj : c.jobs[id]? = some job) (event : Event) (turn : Nat)
    (rounds : Rounds) : Noted c id job event turn (rounds id) (rounds.note turn c event id) (c.step event) := by
  have hbefore := stage?_eq hj
  have hself (mine : List Round) : rounds.set id mine id = mine := if_pos rfl
  by_cases hm : event.Moves id
  · cases event with
    | run j =>
      obtain rfl : j = id := hm
      rcases h.run_cases hj with ⟨heq, hwaits⟩ | ⟨new, shelves, cancelled, sweeper, ht, -, heq⟩
      · refine .same (fun _ => heq) (by rw [Cache.step, heq, hj]) ?_ fun _ => hwaits
        have hafter : (c.run j).stage? j = some job.stage := by rw [heq, hbefore]
        simp only [Rounds.note, hbefore, hafter, hself, Round.turned, if_true]
      · have hnext : (c.run j).jobs[j]? = some { job with stage := new } := by
          rw [heq, getElem?_settle hj, if_pos rfl]
        refine .turn rfl ht (congrArg stores heq) (congrArg Cache.counters heq) hnext ?_
        simp only [Rounds.note, hbefore, stage?_eq hnext, hself]
    | expire j =>
      obtain rfl : j = id := hm
      rcases h.expire_cases j with heq | ⟨job', new, shelves, hj', hx, heq⟩
      · refine .same (fun _ => heq) (by rw [Cache.step, heq, hj]) ?_ fun hrun => by cases hrun
        have hafter : (c.expire j).stage? j = some job.stage := by rw [heq, hbefore]
        simp only [Rounds.note, hbefore, hafter, hself, Round.expired, if_true]
        split <;> rfl
      · obtain rfl := Option.some.inj (hj.symm.trans hj')
        have hnext : (c.expire j).jobs[j]? = some { job with stage := new } := by
          rw [heq, getElem?_settle hj _ _ c.sweeper, if_pos rfl]
        have hnote : rounds.note turn c (.expire j) j = Round.expired job.stage new (rounds j) := by
          simp only [Rounds.note, hbefore, stage?_eq hnext, hself]
        cases hx with
        | skip hk hd hs =>
          have hcounters : (c.expire j).counters = c.counters.tally job.stage (.between _) :=
            congrArg Cache.counters heq
          refine .skip rfl (.skip hk hd hs) ((congrArg stores heq).trans (storesOn_set hs rfl)) ?_ hnext hnote
          rw [Cache.step, hcounters]
          cases job.stage <;> rfl
    | _ => exact hm.elim
  · refine .same (fun h => absurd h hm) (h.job_same hj hm) (note_other hm) ?_
    rintro rfl
    exact absurd rfl hm

/-- A job that has not been started has no log. -/
theorem rounds_absent {first : Cache} (hu : first.Unused) {events : List Event}
    (hj : (first.steps events).jobs[id]? = none) : first.rounds events id = [] := by
  have hlocks := LocksSound.of_unused hu
  induction events using List.reverseRecOn with
  | nil => rfl
  | append_singleton events event ih =>
    have hbefore : (first.steps events).jobs[id]? = none := by
      cases hjob : (first.steps events).jobs[id]? with
      | none => rfl
      | some job =>
        obtain ⟨stage, hstage⟩ := (hlocks.steps events).job_step hjob event
        rw [steps_snoc, hstage] at hj
        cases hj
    rw [rounds_snoc, note_absent hbefore, ih hbefore]

/-- A round is the round of a job. -/
theorem job_of_round {first : Cache} (hu : first.Unused) {events : List Event} {round : Round}
    (hround : round ∈ first.rounds events id) : ∃ job, (first.steps events).jobs[id]? = some job := by
  cases hj : (first.steps events).jobs[id]? with
  | none =>
    rw [rounds_absent hu hj] at hround
    cases hround
  | some job => exact ⟨job, rfl⟩

end Cache

end RoutedCache

import RoutedCache.Cache.Step

/-!
# Schedules

A schedule runs the jobs of a cache in turns.  A job has its turn until it has to wait or a call lets other
jobs go first; when no job can go on, the calls that were left behind come to their end, and then the time moves to
the next moment at which a job can go on.  Whatever a schedule does is a list of events of the cache.
-/

namespace RoutedCache

namespace Cache

/-- Whether a run of the job changes anything now. -/
def ready (c : Cache) (id : JobId) : Bool :=
  match c.jobs[id]? with
  | none => false
  | some job =>
    match job.stage with
    | .ready => true
    | .between _ => true
    | .returned .. => true
    | .queued store _ => c.isCancelled job.token || c.holds store id
    | .pausing _ _ due => due ≤ c.time
    | .holding _ due => due ≤ c.time
    | .idle due => c.isCancelled job.token || due ≤ c.time
    | .awaiting other => (c.answer? other).isSome
    | .finished _ => false

/-- Whether the time for the sweep of the current mount is over. -/
def late (c : Cache) (id : JobId) : Bool :=
  match (c.stage? id).bind Stage.sweeping? with
  | some (_, cycle) => cycle.deadline ≤ c.time
  | none => false

/-- A store in which a call that was left behind is under way. -/
def deserted? (c : Cache) : Option Nat := c.shelves.findIdx? fun shelf => shelf.lock.holder = some .work

/-- The times after which a job can go on. -/
def dues (c : Cache) : List Nat :=
  c.jobs.flatMap fun job =>
    (match job.stage with
      | .pausing _ _ due => [due]
      | .holding _ due => [due]
      | .idle due => [due]
      | _ => []) ++
    (match job.stage.sweeping? with
      | some (_, cycle) => [cycle.deadline]
      | none => [])

end Cache

structure Schedule where
  cache : Cache
  /-- The jobs by the order of their next turns. -/
  order : List JobId := []
  /-- The tokens that are cancelled at a time. -/
  alarms : List (Nat × Token) := []
  /-- The times at which jobs were answered. -/
  answered : List (JobId × Nat) := []

namespace Schedule

/-- After so many turns a schedule is given up. -/
def patience : Nat := 1000000

/-- The turn of a job.  A sweep that has to wait when its time is over gives up its mount and goes on. -/
def turnFrom : Nat → JobId → Cache → Cache
  | 0, _, c => c
  | fuel + 1, id, c =>
    let c := if c.ready id then c.step (.run id) else c
    if c.ready id && !c.yielded id then turnFrom fuel id c
    else if c.late id then turnFrom fuel id (c.step (.expire id))
    else c

def noteAnswer (s : Schedule) (id : JobId) : Schedule :=
  if (s.cache.answer? id).isSome && (s.answered.lookup id).isNone then
    { s with answered := (id, s.cache.time) :: s.answered }
  else s

def turn (s : Schedule) (id : JobId) : Schedule :=
  { s with cache := turnFrom patience id s.cache, order := s.order.filter (· ≠ id) ++ [id] }.noteAnswer id

/-- Moves the time and cancels the tokens that are due. -/
def moveTo (s : Schedule) (time : Nat) : Schedule :=
  let cache := s.cache.step (.elapse (time - s.cache.time))
  let due := s.alarms.filter fun alarm => alarm.1 ≤ time
  { s with
    cache := due.foldl (fun c alarm => c.step (.cancel alarm.2)) cache
    alarms := s.alarms.filter fun alarm => time < alarm.1 }

/-- The next moment at which something can happen, but not after the given one. -/
def nextTime? (s : Schedule) (limit : Option Nat) : Option Nat :=
  let times := (s.cache.dues ++ s.alarms.map (·.1)).map (max · s.cache.time)
  (limit.toList ++ times).min?

def driveFrom (goal : Cache → Bool) (limit : Option Nat) : Nat → Schedule → Schedule
  | 0, s => s
  | fuel + 1, s =>
    if goal s.cache then s
    else
      match s.order.find? fun id => s.cache.ready id || s.cache.late id with
      | some id => driveFrom goal limit fuel (s.turn id)
      | none =>
        match s.cache.deserted? with
        | some store => driveFrom goal limit fuel { s with cache := s.cache.step (.complete store) }
        | none =>
          match s.nextTime? limit with
          | some time => driveFrom goal limit fuel (s.moveTo time)
          | none => s

/-- Turns and waits until the goal is reached. -/
def driveUntil (s : Schedule) (goal : Cache → Bool) : Schedule := driveFrom goal none patience s

def advance (s : Schedule) (ms : Nat) : Schedule :=
  let time := s.cache.after ms
  driveFrom (fun c => time ≤ c.time) (some time) patience s

/-- Starts a job whose first turn comes after the turns of the jobs that wait for theirs. -/
def enter (s : Schedule) (request : Request) (token : Token) : Schedule × JobId :=
  let id := s.cache.jobs.length
  ({ s with cache := s.cache.step (.start request token), order := s.order ++ [id] }, id)

/-- Starts a job and gives it its first turn. -/
def start (s : Schedule) (request : Request) (token : Token) : Schedule × JobId :=
  let (s, id) := s.enter request token
  (s.turn id, id)

/-- Starts a job and drives the schedule until it is answered. -/
def call (s : Schedule) (request : Request) (token : Token) : Schedule × Option Answer :=
  let (s, id) := s.start request token
  let s := s.driveUntil fun c => (c.answer? id).isSome
  (s, s.cache.answer? id)

end Schedule

end RoutedCache

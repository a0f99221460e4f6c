import RoutedCache.Cache.State

/-!
# Steps of a cache

Everything that happens to a cache is an event, and `Cache.step` is its effect.  A run of a job takes it to
the next point where another job may get its turn; the order of the events is free, so a law about all lists
of events holds for every schedule, every wait and every cancellation.  A job goes on to its answer once it was
started; only the sweep of a mount is given up on the way, at the end of its time.
-/

namespace RoutedCache

inductive Event where
  | start (request : Request) (token : Token)
  | run (job : JobId)
  /-- The sweep of the current mount is given up if its time is over. -/
  | expire (job : JobId)
  /-- The end of a call that was left behind in a store. -/
  | complete (store : Nat)
  | cancel (token : Token)
  | elapse (ms : Nat)
  | setClock (t : Instant)
deriving DecidableEq, Repr

/-- The store, the visit and the cycle of a sweep that is in a mount. -/
def Stage.sweeping? : Stage → Option (Nat × SweepCycle)
  | .queued store (.list _ cycle) => some (store, cycle)
  | .queued store (.evict _ _ cycle) => some (store, cycle)
  | .pausing store (.list _ cycle) _ => some (store, cycle)
  | .pausing store (.evict _ _ cycle) _ => some (store, cycle)
  | .returned store (.list _ cycle) _ => some (store, cycle)
  | .returned store (.evict _ _ cycle) _ => some (store, cycle)
  | _ => none

namespace Cache

def leave (c : Cache) (store : Nat) (id : JobId) : Cache := c.setLock store (·.leave id)

/-- Whether the job has made a call that lets other jobs go first.  Until the job goes on, the call may be under
way. -/
def yielded (c : Cache) (id : JobId) : Bool :=
  match c.stage? id with
  | some (.returned store _ _) => (c.shelves[store]?.map (·.store.yields)).getD false
  | _ => false

/-- Goes away from a store, without waiting for a call that is under way there. -/
def giveUp (c : Cache) (store : Nat) (id : JobId) : Cache :=
  if c.yielded id then c.setLock store (·.abandon id) else c.leave store id

/-- Goes on without a lock. -/
def proceed (c : Cache) (id : JobId) : Visit.Turn → Cache
  | .answer answer => c.finish id answer
  | .move cycle => c.setStage id (.between cycle)
  | .stay _ => c

/-- Makes a call with the lock held.  A call on documents may be under way for a while after this, but nobody else gets
the lock before its end, even if its job goes away: whether its effect comes now or at the end makes no difference
(`LocksSound.late_effect`). -/
def perform (c : Cache) (id : JobId) (store : Nat) (visit : Visit) (call : StoreCall) : Cache :=
  match c.shelves[store]? with
  | none => c
  | some shelf =>
    let (reply, next) := shelf.perform call
    let c := { c with shelves := c.shelves.set store next }
    let c := if shelf.store.trips call reply then c.cancel .trip else c
    c.setStage id (.returned store visit reply)

def delay (c : Cache) (store : Nat) (call : StoreCall) : Nat :=
  match c.shelves[store]? with
  | none => 0
  | some shelf => shelf.store.delay call

/-- Starts what the visit does next, with the lock held. -/
def visitStore (c : Cache) (id : JobId) (store : Nat) (visit : Visit) : Cache :=
  match visit, visit.call? with
  | .hold ms, _ => c.setStage id (.holding store (c.after ms))
  | visit, some call =>
    if c.delay store call = 0 then c.perform id store visit call
    else c.setStage id (.pausing store visit (c.after (c.delay store call)))
  | .calls _ replies, none => (c.leave store id).finish id (.replies replies)
  | _, none => c

/-- Asks for the lock of a store.  A cancelled job does not get it even if it is free. -/
def ask (c : Cache) (id : JobId) (token : Token) (store : Nat) (visit : Visit) : Cache :=
  match c.shelves[store]? with
  | none => c
  | some shelf =>
    let c := { c with shelves := c.shelves.set store shelf.requested }
    match shelf.lockRefusal? with
    | some fault => c.proceed id (visit.fail (.backend fault))
    | none =>
      if c.isCancelled token then c.proceed id (visit.fail .cancelled)
      else
        let c := c.setLock store (·.ask id)
        if c.holds store id then c.visitStore id store visit else c.setStage id (.queued store visit)

/-- Starts the sweep of the next mount, or ends the sweep. -/
def sweepNext (c : Cache) (id : JobId) (job : Job) (cycle : SweepCycle) : Cache :=
  match cycle.rest, c.isCancelled job.token with
  | (path, store) :: rest, false =>
    c.ask id job.token store (.list path { cycle with rest, deadline := c.time + c.timeout })
  | _, _ =>
    if job.request = .sweeper then
      { c.setStage id (.idle (c.after c.interval)) with counters := c.counters.count (.swept cycle.total) }
    else c.finish id (.swept cycle.total)

def begin (c : Cache) (id : JobId) (job : Job) : Cache :=
  match job.request with
  | .sweep => c.setStage id (.between c.fullCycle)
  | .sweeper => c.setStage id (.idle (c.after c.interval))
  | .shutdown =>
    let c := c.cancel .shutdown
    match c.sweeper with
    | none => c.finish id .ended
    | some other => { c with sweeper := none }.setStage id (.awaiting other)
  | request =>
    match request.route c.mounts c.clock with
    | .error answer => c.finish id answer
    | .ok (store, visit) => c.ask id job.token store visit

def run (c : Cache) (id : JobId) : Cache :=
  match c.jobs[id]? with
  | none => c
  | some job =>
    match job.stage with
    | .ready => c.begin id job
    | .between cycle => c.sweepNext id job cycle
    | .queued store visit =>
      if c.isCancelled job.token then (c.leave store id).proceed id (visit.fail .cancelled)
      else if c.holds store id then c.visitStore id store visit
      else c
    | .pausing store visit due =>
      match visit.call? with
      | some call => if due ≤ c.time then c.perform id store visit call else c
      | none => c
    | .returned store visit reply =>
      match visit.next c.clock (c.isCancelled job.token) reply with
      | .stay visit => c.visitStore id store visit
      | turn => (c.leave store id).proceed id turn
    | .holding store due => if due ≤ c.time then (c.leave store id).finish id .ended else c
    | .idle due =>
      if c.isCancelled job.token then c.finish id .ended
      else if due ≤ c.time then c.setStage id (.between c.fullCycle)
      else c
    | .awaiting other => if (c.answer? other).isSome then c.finish id .ended else c
    | .finished _ => c

def expire (c : Cache) (id : JobId) : Cache :=
  match (c.stage? id).bind Stage.sweeping? with
  | some (store, cycle) =>
    if cycle.deadline ≤ c.time then (c.giveUp store id).setStage id (.between cycle.skip) else c
  | none => c

def step (c : Cache) : Event → Cache
  | .start request token => { c with jobs := c.jobs ++ [{ request, token }] }
  | .run id => c.run id
  | .expire id => c.expire id
  | .complete store => c.setLock store (·.release)
  | .cancel token => c.cancel token
  | .elapse ms => { c with time := c.time + ms, clock := c.clock.forward (Duration.ofMillis ms) }
  | .setClock t => { c with clock := .ofInstant t }

def steps (c : Cache) (events : List Event) : Cache := events.foldl step c

end Cache

end RoutedCache

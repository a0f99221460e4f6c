import RoutedCache.Cache.Step

/-!
# Transitions of a job

A run of a job takes it from one stage to another and changes one shelf at most, and so does the end of the time
for a mount.  `Transition` and `Expiry` list what can happen; `Cache.run_cases` and `Cache.expire_cases` say that
nothing else does.  Whatever all runs keep is proved by cases on them, and whatever all events keep by cases on
`Cache.Effect`.
-/

namespace RoutedCache

/-- A write, a read or a delete. -/
def Request.IsCall : Request → Prop
  | .write .. | .read _ | .delete _ => True
  | _ => False

/-- The store in which a job with this stage is at work. -/
def Stage.inside? : Stage → Option Nat
  | .pausing store _ _ => some store
  | .returned store _ _ => some store
  | .holding store _ => some store
  | _ => none

/-- The store whose lock a job with this stage holds or awaits. -/
def Stage.claim? : Stage → Option Nat
  | .queued store _ => some store
  | stage => stage.inside?

/-- The stage after a turn that ends a visit. -/
def Visit.Turn.stage : Visit.Turn → Stage
  | .answer a => .finished a
  | .move cycle => .between cycle
  | .stay _ => .ready

/-- The counters after a change of stage: answers are counted, and so are the sweeps of the sweeper. -/
def Counters.tally (counters : Counters) : Stage → Stage → Counters
  | .finished _, _ => counters
  | _, .finished answer => counters.count answer
  | .between cycle, .idle _ => counters.count (.swept cycle.total)
  | _, _ => counters

namespace Shelf

/-- The shelf after a request for its lock. -/
def asked (shelf : Shelf) (id : JobId) : Shelf := { shelf.requested with lock := shelf.lock.ask id }

def left (shelf : Shelf) (id : JobId) : Shelf := { shelf with lock := shelf.lock.leave id }

/-- The shelf after a job has gone, with its work left behind or not. -/
def givenUp (shelf : Shelf) (id : JobId) (working : Bool) : Shelf :=
  { shelf with lock := if working then shelf.lock.abandon id else shelf.lock.leave id }

/-- The shelf after the end of the work that was left behind. -/
def released (shelf : Shelf) : Shelf := { shelf with lock := shelf.lock.release }

end Shelf

/-- Whether a job with this stage leaves work behind in the store if it goes. -/
def Stage.working (stage : Stage) (store : Store) : Bool :=
  match stage with
  | .returned .. => store.yields
  | _ => false

namespace Cache

/-- The job goes from one stage to another. -/
def settle (c : Cache) (id : JobId) (old new : Stage) : Cache :=
  { c.setStage id new with counters := c.counters.tally old new }

end Cache

/-- The visit that a job outside the stores is about to make. -/
inductive Wants (c : Cache) (job : Job) : Stage → Nat → Visit → Prop
  | call {store visit} (h : job.request.route c.mounts c.clock = .ok (store, visit)) :
      Wants c job .ready store visit
  | mount {cycle path store rest} (h : cycle.rest = (path, store) :: rest)
      (hc : c.isCancelled job.token = false) :
      Wants c job (.between cycle) store (.list path { cycle with rest, deadline := c.time + c.timeout })

/-- A change of stage without any store. -/
inductive Aside (c : Cache) (job : Job) : Stage → Stage → Prop
  | answer {answer} (h : job.request.route c.mounts c.clock = .error answer)
      (hr : job.request ≠ .sweep ∧ job.request ≠ .sweeper ∧ job.request ≠ .shutdown) :
      Aside c job .ready (.finished answer)
  | sweep (h : job.request = .sweep) : Aside c job .ready (.between c.fullCycle)
  | sweeper (h : job.request = .sweeper) : Aside c job .ready (.idle (c.after c.interval))
  | shutdown (h : job.request = .shutdown) : Aside c job .ready (.finished .ended)
  | await {other} (h : job.request = .shutdown) : Aside c job .ready (.awaiting other)
  | swept {cycle} (h : cycle.rest = [] ∨ c.isCancelled job.token = true) (hr : job.request ≠ .sweeper) :
      Aside c job (.between cycle) (.finished (.swept cycle.total))
  | pause {cycle} (h : cycle.rest = [] ∨ c.isCancelled job.token = true) (hr : job.request = .sweeper) :
      Aside c job (.between cycle) (.idle (c.after c.interval))
  | stop {due} (h : c.isCancelled job.token = true) : Aside c job (.idle due) (.finished .ended)
  | wake {due} (h : due ≤ c.time) (hc : c.isCancelled job.token = false) :
      Aside c job (.idle due) (.between c.fullCycle)
  | joined {other} (h : (c.answer? other).isSome) : Aside c job (.awaiting other) (.finished .ended)

/-- What a visit to a store with the lock held comes to: the next stage and the shelf after it. -/
inductive Visits (c : Cache) (id : JobId) (store : Nat) (shelf : Shelf) : Visit → Stage → Shelf → Prop
  | hold {ms} : Visits c id store shelf (.hold ms) (.holding store (c.after ms)) shelf
  | pause {visit call} (h : visit.call? = some call) (hd : shelf.store.delay call ≠ 0) :
      Visits c id store shelf visit (.pausing store visit (c.after (shelf.store.delay call))) shelf
  | call {visit call} (h : visit.call? = some call) (hd : shelf.store.delay call = 0) :
      Visits c id store shelf visit (.returned store visit (shelf.perform call).1) (shelf.perform call).2
  | done {replies} : Visits c id store shelf (.calls [] replies) (.finished (.replies replies)) (shelf.left id)

/-- How a job gives up its claim to a store. -/
inductive Leaves (c : Cache) (job : Job) : Stage → Visit.Turn → Prop
  | cancelled {store visit} (h : c.isCancelled job.token = true) :
      Leaves c job (.queued store visit) (visit.fail .cancelled)
  | next {store visit reply turn} (h : visit.next c.clock (c.isCancelled job.token) reply = turn)
      (hs : ∀ visit', turn ≠ .stay visit') : Leaves c job (.returned store visit reply) turn
  | held {store due} (h : due ≤ c.time) : Leaves c job (.holding store due) (.answer .ended)

/-- What can happen to a job: the stages before and after it, and the shelves after it. -/
inductive Transition (c : Cache) (id : JobId) (job : Job) : Stage → Stage → List Shelf → Prop
  | aside {stage next} (h : Aside c job stage next) : Transition c id job stage next c.shelves
  | refuse {stage store visit shelf fault} (hw : Wants c job stage store visit)
      (hs : c.shelves[store]? = some shelf) (h : shelf.lockRefusal? = some fault) :
      Transition c id job stage (visit.fail (.backend fault)).stage (c.shelves.set store shelf.requested)
  | cancel {stage store visit shelf} (hw : Wants c job stage store visit) (hs : c.shelves[store]? = some shelf)
      (hf : shelf.lockRefusal? = none) (h : c.isCancelled job.token = true) :
      Transition c id job stage (visit.fail .cancelled).stage (c.shelves.set store shelf.requested)
  | queue {stage store visit shelf holder} (hw : Wants c job stage store visit)
      (hs : c.shelves[store]? = some shelf) (hf : shelf.lockRefusal? = none)
      (hc : c.isCancelled job.token = false) (h : shelf.lock.holder = some holder) (hne : holder ≠ .job id) :
      Transition c id job stage (.queued store visit) (c.shelves.set store (shelf.asked id))
  | enter {stage store visit shelf next shelf'} (hw : Wants c job stage store visit)
      (hs : c.shelves[store]? = some shelf) (hf : shelf.lockRefusal? = none)
      (hc : c.isCancelled job.token = false) (h : shelf.lock.holder = none)
      (hv : Visits c id store (shelf.asked id) visit next shelf') :
      Transition c id job stage next (c.shelves.set store shelf')
  | grant {store visit shelf next shelf'} (hs : c.shelves[store]? = some shelf)
      (hc : c.isCancelled job.token = false) (h : shelf.lock.holder = some (.job id))
      (hv : Visits c id store shelf visit next shelf') :
      Transition c id job (.queued store visit) next (c.shelves.set store shelf')
  | call {store visit due call shelf} (hs : c.shelves[store]? = some shelf) (h : visit.call? = some call)
      (hd : due ≤ c.time) :
      Transition c id job (.pausing store visit due) (.returned store visit (shelf.perform call).1)
        (c.shelves.set store (shelf.perform call).2)
  | stay {store visit reply visit' shelf next shelf'} (hs : c.shelves[store]? = some shelf)
      (h : visit.next c.clock (c.isCancelled job.token) reply = .stay visit')
      (hv : Visits c id store shelf visit' next shelf') :
      Transition c id job (.returned store visit reply) next (c.shelves.set store shelf')
  | leave {stage store shelf turn} (hk : stage.claim? = some store) (hs : c.shelves[store]? = some shelf)
      (h : Leaves c job stage turn) : Transition c id job stage turn.stage (c.shelves.set store (shelf.left id))

/-- What the end of the time for a mount does to the job that sweeps it. -/
inductive Expiry (c : Cache) (id : JobId) (stage : Stage) : Stage → List Shelf → Prop
  | skip {store cycle shelf} (hk : stage.sweeping? = some (store, cycle)) (hd : cycle.deadline ≤ c.time)
      (hs : c.shelves[store]? = some shelf) :
      Expiry c id stage (.between cycle.skip) (c.shelves.set store (shelf.givenUp id (stage.working shelf.store)))

/-- The event is a turn of the job, or the end of its time for a mount. -/
def Event.Moves (id : JobId) : Event → Prop
  | .run j | .expire j => j = id
  | _ => False

/-- No event is a turn of two jobs. -/
theorem Event.Moves.unique {id j : JobId} {event : Event} (h : event.Moves id) (h' : event.Moves j) : id = j := by
  cases event with
  | run => exact h.symm.trans h'
  | expire => exact h.symm.trans h'
  | _ => exact h.elim

/-- What an event comes to: a job is started, a job has its turn or gives up a mount, a lock that was left behind is
handed over, or all jobs and locks stay as they are. -/
inductive Cache.Effect (c : Cache) (event : Event) : Cache → Prop
  | start {request token} (h : event = .start request token) :
      Cache.Effect c event { c with jobs := c.jobs ++ [{ request, token : Job }] }
  | turn {id : JobId} {job : Job} {next shelves cancelled sweeper} (hm : event.Moves id)
      (hj : c.jobs[id]? = some job) (ht : Transition c id job job.stage next shelves)
      (hc : c.cancelled ⊆ cancelled) :
      Cache.Effect c event ({ c with shelves, cancelled, sweeper }.settle id job.stage next)
  | skip {id : JobId} {job : Job} {next shelves} (hm : event.Moves id) (hj : c.jobs[id]? = some job)
      (he : Expiry c id job.stage next shelves) :
      Cache.Effect c event ({ c with shelves }.settle id job.stage next)
  | complete {store : Nat} {shelf : Shelf} (h : event = .complete store) (hs : c.shelves[store]? = some shelf) :
      Cache.Effect c event { c with shelves := c.shelves.set store shelf.released }
  | aside {cancelled time clock} (hc : c.cancelled ⊆ cancelled) :
      Cache.Effect c event { c with cancelled, time, clock }

/-- A shelf after the replacement of one of the shelves. -/
theorem Shelf.set_cases {shelves : List Shelf} {store s : Nat} {shelf other : Shelf}
    (h : (shelves.set store shelf)[s]? = some other) :
    s = store ∧ other = shelf ∨ s ≠ store ∧ shelves[s]? = some other := by
  rw [List.getElem?_set] at h
  split at h
  next heq =>
    split at h
    next => exact .inl ⟨heq.symm, (Option.some.inj h).symm⟩
    next => cases h
  next hne => exact .inr ⟨Ne.symm hne, h⟩

/-- The shelves after a change of one lock are as they were but for it. -/
theorem Shelf.set_lock_cases {shelves : List Shelf} {store s : Nat} {shelf other : Shelf} {lock : Lock}
    (hs : shelves[store]? = some shelf) (h : (shelves.set store { shelf with lock })[s]? = some other) :
    ∃ before, shelves[s]? = some before ∧ other.store = before.store ∧ other.outages = before.outages := by
  rcases Shelf.set_cases h with ⟨rfl, rfl⟩ | ⟨-, h⟩
  · exact ⟨shelf, hs, rfl, rfl⟩
  · exact ⟨other, h, rfl, rfl⟩

theorem Stage.claim?_of_sweeping? {stage : Stage} {store : Nat} {cycle : SweepCycle}
    (h : stage.sweeping? = some (store, cycle)) : stage.claim? = some store := by
  unfold Stage.sweeping? at h
  split at h <;> simp_all [Stage.claim?, Stage.inside?]

/-- A job starts out of a stage that is not its end, and it is in a store only after it was there or in none. -/
theorem Transition.inside {c : Cache} {id : JobId} {job : Job} {old new : Stage} {shelves : List Shelf}
    (ht : Transition c id job old new shelves) :
    (∀ answer, old ≠ .finished answer) ∧
      ∀ s, new.inside? = some s → old.inside? = none ∨ old.inside? = some s := by
  have hwants {stage : Stage} {store : Nat} {visit : Visit} (hw : Wants c job stage store visit) :
      (∀ answer, stage ≠ .finished answer) ∧ stage.inside? = none := by
    cases hw <;> exact ⟨by simp, rfl⟩
  have hturn (turn : Visit.Turn) : turn.stage.inside? = none := by cases turn <;> rfl
  cases ht with
  | aside ha => cases ha <;> exact ⟨by simp, nofun⟩
  | refuse hw => exact ⟨(hwants hw).1, fun _ _ => .inl (hwants hw).2⟩
  | cancel hw => exact ⟨(hwants hw).1, fun _ _ => .inl (hwants hw).2⟩
  | queue hw => exact ⟨(hwants hw).1, nofun⟩
  | enter hw => exact ⟨(hwants hw).1, fun _ _ => .inl (hwants hw).2⟩
  | grant => exact ⟨by simp, fun _ _ => .inl rfl⟩
  | call => exact ⟨by simp, fun s hs => .inr hs⟩
  | stay _ _ hv =>
    refine ⟨by simp, fun s hs => .inr ?_⟩
    cases hv with
    | done => cases hs
    | _ => exact hs
  | @leave stage _ _ turn hk =>
    refine ⟨?_, fun s hs => ?_⟩
    · rintro answer rfl
      cases hk
    · rw [hturn] at hs
      cases hs

/-! ### Runs are transitions -/

/-- Some call to the store trips. -/
def Store.Trips (store : Store) : Prop := ∃ call reply, store.trips call reply = true

namespace Cache

variable {c : Cache} {id : JobId} {job : Job}

private theorem finish_eq_settle {old : Stage} (hold : ∀ a, old ≠ .finished a) (answer : Answer) :
    c.finish id answer = c.settle id old (.finished answer) := by
  cases old with
  | finished a => exact absurd rfl (hold a)
  | _ => rfl

private theorem setStage_eq_settle {old new : Stage} (hnew : ∀ a, new ≠ .finished a)
    (hidle : ∀ due, new ≠ .idle due) :
    c.setStage id new = c.settle id old new := by
  cases new with
  | finished a => exact absurd rfl (hnew a)
  | idle due => exact absurd rfl (hidle due)
  | _ => cases old <;> rfl

theorem fail_ne_stay (visit visit' : Visit) (error : CacheError) : visit.fail error ≠ .stay visit' := by
  cases visit <;> simp [Visit.fail]

private theorem proceed_eq_settle {old : Stage} (hold : ∀ a, old ≠ .finished a) {turn : Visit.Turn}
    (hs : ∀ visit, turn ≠ .stay visit) : c.proceed id turn = c.settle id old turn.stage := by
  cases turn with
  | answer a => exact finish_eq_settle hold a
  | move cycle => exact setStage_eq_settle (by simp) (by simp)
  | stay visit => exact absurd rfl (hs visit)

private theorem call?_eq_none {visit : Visit} (h : visit.call? = none) :
    (∃ ms, visit = .hold ms) ∨ ∃ replies, visit = .calls [] replies := by
  cases visit with
  | hold ms => exact .inl ⟨ms, rfl⟩
  | calls left replies =>
    cases left with
    | nil => exact .inr ⟨replies, rfl⟩
    | cons call left => simp [Visit.call?] at h
  | _ => simp [Visit.call?] at h

private theorem perform_eq {store : Nat} {shelf : Shelf} (hs : c.shelves[store]? = some shelf) (id : JobId)
    (visit : Visit) (call : StoreCall) : ∃ cancelled,
      (cancelled = c.cancelled ∨ shelf.store.Trips ∧ c.cancelled ⊆ cancelled) ∧
      c.perform id store visit call =
        { c with shelves := c.shelves.set store (shelf.perform call).2, cancelled }.setStage id
          (.returned store visit (shelf.perform call).1) := by
  simp only [perform, hs]
  split
  next htrips =>
    refine ⟨.trip :: c.cancelled, .inr ⟨⟨_, _, htrips⟩, List.subset_cons_self _ _⟩, ?_⟩
    simp [cancel]
  next => exact ⟨_, .inl rfl, rfl⟩

theorem setLock_eq {store : Nat} {shelf : Shelf} (hs : c.shelves[store]? = some shelf) (f : Lock → Lock) :
    c.setLock store f = { c with shelves := c.shelves.set store { shelf with lock := f shelf.lock } } := by
  simp only [setLock]
  congr 1
  apply List.ext_getElem?
  intro i
  rw [List.getElem?_modify, List.getElem?_set]
  by_cases hi : store = i
  · subst hi
    rw [hs, if_pos rfl, if_pos (List.getElem?_eq_some_iff.1 hs).1]
    simp
  · simp [hi]

private theorem set_leave {store : Nat} {shelf : Shelf} (hs : c.shelves[store]? = some shelf) :
    c.leave store id = { c with shelves := c.shelves.set store (shelf.left id) } := setLock_eq hs _

/-- A sweep that goes away leaves a call behind if it has made one that may be under way. -/
theorem yielded_eq (hj : c.jobs[id]? = some job) {store : Nat} {cycle : SweepCycle} {shelf : Shelf}
    (hk : job.stage.sweeping? = some (store, cycle)) (hs : c.shelves[store]? = some shelf) :
    c.yielded id = job.stage.working shelf.store := by
  have hclaim := Stage.claim?_of_sweeping? hk
  simp only [yielded, stage?, hj, Option.map_some]
  cases hstage : job.stage with
  | returned =>
    rw [hstage] at hclaim
    obtain rfl := Option.some.inj hclaim
    simp [hs, Stage.working]
  | _ => rfl

theorem jobs_giveUp (c : Cache) (store : Nat) (id : JobId) : (c.giveUp store id).jobs = c.jobs := by
  unfold giveUp
  split <;> rfl

private theorem set_giveUp (hj : c.jobs[id]? = some job) {store : Nat} {cycle : SweepCycle} {shelf : Shelf}
    (hk : job.stage.sweeping? = some (store, cycle)) (hs : c.shelves[store]? = some shelf) :
    c.giveUp store id =
      { c with shelves := c.shelves.set store (shelf.givenUp id (job.stage.working shelf.store)) } := by
  unfold giveUp
  rw [yielded_eq hj hk hs, setLock_eq hs, set_leave hs]
  split
  next hw => simp only [Shelf.givenUp, hw, if_true]
  next hw => simp only [Shelf.givenUp, Shelf.left, hw, if_neg, Bool.false_eq_true, not_false_eq_true]

private theorem visitStore_eq {store : Nat} {shelf : Shelf} (hs : c.shelves[store]? = some shelf) (id : JobId)
    {old : Stage} (hold : ∀ a, old ≠ .finished a) (visit : Visit) :
    ∃ next shelf' cancelled, Visits c id store shelf visit next shelf' ∧
      (cancelled = c.cancelled ∨ shelf.store.Trips ∧ c.cancelled ⊆ cancelled) ∧ c.visitStore id store visit =
        { c with shelves := c.shelves.set store shelf', cancelled }.settle id old next := by
  have hset : c.shelves.set store shelf = c.shelves := by
    obtain ⟨hlt, rfl⟩ := List.getElem?_eq_some_iff.1 hs
    exact List.set_getElem_self hlt
  cases hcall : visit.call? with
  | none =>
    rcases call?_eq_none hcall with ⟨ms, rfl⟩ | ⟨replies, rfl⟩
    · refine ⟨_, _, c.cancelled, .hold, .inl rfl, ?_⟩
      rw [hset, ← setStage_eq_settle (by simp) (by simp)]
      rfl
    · refine ⟨_, _, c.cancelled, .done, .inl rfl, ?_⟩
      rw [← finish_eq_settle hold, ← set_leave hs]
      rfl
  | some call =>
    have hne : ∀ ms, visit ≠ .hold ms := by
      rintro ms rfl
      simp [Visit.call?] at hcall
    have hdelay : c.delay store call = shelf.store.delay call := by simp [delay, hs]
    have hvisit : c.visitStore id store visit =
        if shelf.store.delay call = 0 then c.perform id store visit call
        else c.setStage id (.pausing store visit (c.after (shelf.store.delay call))) := by
      rw [← hdelay]
      unfold visitStore
      split
      next ms => exact absurd rfl (hne ms)
      next call' _ hcall' =>
        obtain rfl : call = call' := by simpa [hcall] using hcall'
        rfl
      next hcall' => rw [hcall] at hcall'; simp at hcall'
      next hcall' => rw [hcall] at hcall'; simp at hcall'
    rw [hvisit]
    split
    next h0 =>
      obtain ⟨cancelled, hcancelled, hperform⟩ := perform_eq hs id visit call
      refine ⟨_, _, cancelled, .call hcall h0, hcancelled, ?_⟩
      rw [hperform, ← setStage_eq_settle (by simp) (by simp)]
    next h0 =>
      refine ⟨_, _, c.cancelled, .pause hcall h0, .inl rfl, ?_⟩
      rw [hset, ← setStage_eq_settle (by simp) (by simp)]

private theorem visits_of_shelves {shelves : List Shelf} {store : Nat} {shelf shelf' : Shelf} {visit : Visit}
    {next : Stage} (h : Visits { c with shelves } id store shelf visit next shelf') :
    Visits c id store shelf visit next shelf' := by
  cases h with
  | hold => exact .hold
  | pause h hd => exact .pause h hd
  | call h hd => exact .call h hd
  | done => exact .done

/-- The lock after a request for it. -/
private theorem setLock_requested {store : Nat} {shelf : Shelf} (hs : c.shelves[store]? = some shelf) :
    ({ c with shelves := c.shelves.set store shelf.requested }.setLock store (·.ask id)) =
      { c with shelves := c.shelves.set store (shelf.asked id) } := by
  have hlt := (List.getElem?_eq_some_iff.1 hs).1
  simp only [setLock, Shelf.asked]
  congr 1
  apply List.ext_getElem?
  intro i
  rw [List.getElem?_modify, List.getElem?_set, List.getElem?_set]
  by_cases hi : store = i
  · subst hi
    rw [if_pos rfl, if_pos hlt, if_pos rfl, if_pos hlt]
    simp [Shelf.requested]
  · simp [hi]

private theorem holds_asked {store : Nat} {shelf : Shelf} (hs : c.shelves[store]? = some shelf)
    (hne : shelf.lock.holder ≠ some (.job id)) :
    ({ c with shelves := c.shelves.set store (shelf.asked id) }.holds store id) = shelf.lock.holder.isNone := by
  have hlt := (List.getElem?_eq_some_iff.1 hs).1
  simp only [holds, List.getElem?_set_self hlt, Shelf.asked, Lock.ask]
  cases hholder : shelf.lock.holder with
  | none => simp
  | some holder =>
    rw [hholder] at hne
    simpa [hholder] using hne

/-- To ask for a lock is a transition. -/
theorem ask_eq {store : Nat} {visit : Visit} {shelf : Shelf} {old : Stage}
    (hw : Wants c job old store visit) (hs : c.shelves[store]? = some shelf)
    (hne : shelf.lock.holder ≠ some (.job id)) : ∃ next shelves cancelled, Transition c id job old next shelves ∧
      (cancelled = c.cancelled ∨ shelf.store.Trips ∧ c.cancelled ⊆ cancelled) ∧
      c.ask id job.token store visit = { c with shelves, cancelled }.settle id old next := by
  have hold : ∀ a, old ≠ .finished a := by cases hw <;> simp
  simp only [ask, hs]
  split
  next fault hfault =>
    refine ⟨_, _, c.cancelled, .refuse hw hs hfault, .inl rfl, ?_⟩
    rw [proceed_eq_settle hold (fail_ne_stay visit · _)]
  next hfault =>
    split
    next hc =>
      refine ⟨_, _, c.cancelled, .cancel hw hs hfault hc, .inl rfl, ?_⟩
      rw [proceed_eq_settle hold (fail_ne_stay visit · _)]
    next hc =>
      have hc : c.isCancelled job.token = false := by simpa [isCancelled] using hc
      rw [setLock_requested hs, holds_asked hs hne]
      cases hholder : shelf.lock.holder with
      | none =>
        have hlt := (List.getElem?_eq_some_iff.1 hs).1
        obtain ⟨next, shelf', cancelled, hv, hcancelled, heq⟩ :=
          visitStore_eq (c := { c with shelves := c.shelves.set store (shelf.asked id) })
            (List.getElem?_set_self hlt) id hold visit
        refine ⟨next, _, cancelled, .enter hw hs hfault hc hholder (visits_of_shelves hv), hcancelled, ?_⟩
        rw [Option.isNone_none, if_pos rfl, heq, List.set_set]
      | some holder =>
        refine ⟨_, _, c.cancelled, .queue hw hs hfault hc hholder ?_, .inl rfl, ?_⟩
        · rintro rfl
          exact hne hholder
        · rw [Option.isNone_some, if_neg (by simp), ← setStage_eq_settle (by simp) (by simp)]

/-- What may cancel tokens in a run of the job. -/
def Cancels (c : Cache) (job : Job) : Prop :=
  job.request = .shutdown ∨ ∃ (s : Nat) (shelf : Shelf), c.shelves[s]? = some shelf ∧ shelf.store.Trips

/-- The cache after a transition of the job. -/
def Moves (c : Cache) (id : JobId) (job : Job) (c' : Cache) : Prop :=
  ∃ next shelves cancelled sweeper, Transition c id job job.stage next shelves ∧
    (cancelled = c.cancelled ∨ c.Cancels job ∧ c.cancelled ⊆ cancelled) ∧
      c' = { c with shelves, cancelled, sweeper }.settle id job.stage next

/-- What a run of a job comes to: a transition, or nothing as long as the job waits. -/
def RunsTo (c : Cache) (id : JobId) (job : Job) (c' : Cache) : Prop :=
  (c' = c ∧ ∀ store visit reply, job.stage ≠ .returned store visit reply) ∨ Moves c id job c'

private theorem moves_aside {new : Stage} (h : Aside c job job.stage new) :
    Moves c id job (c.settle id job.stage new) :=
  ⟨new, c.shelves, c.cancelled, c.sweeper, .aside h, .inl rfl, rfl⟩

private theorem runsTo_ask
    (hfree : ∀ (s : Nat) (shelf : Shelf), c.shelves[s]? = some shelf → shelf.lock.holder ≠ some (.job id))
    {store : Nat} {visit : Visit} (hw : Wants c job job.stage store visit) :
    RunsTo c id job (c.ask id job.token store visit) := by
  cases hs : c.shelves[store]? with
  | none =>
    refine .inl ⟨by simp [ask, hs], ?_⟩
    generalize job.stage = stage at hw
    cases hw <;> simp
  | some shelf =>
    obtain ⟨next, shelves, cancelled, ht, hcancelled, heq⟩ := ask_eq hw hs (hfree store shelf hs)
    exact .inr ⟨next, shelves, cancelled, c.sweeper, ht,
      hcancelled.imp_right (And.imp_left fun h => .inr ⟨store, shelf, hs, h⟩), heq⟩

private theorem runsTo_begin
    (hfree : ∀ (s : Nat) (shelf : Shelf), c.shelves[s]? = some shelf → shelf.lock.holder ≠ some (.job id))
    (hstage : job.stage = .ready) : RunsTo c id job (c.begin id job) := by
  have hold : ∀ a, job.stage ≠ .finished a := by simp [hstage]
  unfold begin
  split
  next hr =>
    have h : Aside c job job.stage (.between c.fullCycle) := hstage ▸ .sweep hr
    rw [setStage_eq_settle (by simp) (by simp)]
    exact .inr (moves_aside h)
  next hr =>
    have h : Aside c job job.stage (.idle (c.after c.interval)) := hstage ▸ .sweeper hr
    have heq : c.setStage id (.idle (c.after c.interval)) =
        c.settle id job.stage (.idle (c.after c.interval)) := by
      rw [hstage]; rfl
    rw [heq]
    exact .inr (moves_aside h)
  next hr =>
    have hended : Aside c job job.stage (.finished .ended) := hstage ▸ .shutdown hr
    have hawait {other : JobId} : Aside c job job.stage (.awaiting other) := hstage ▸ .await hr
    simp only [cancel, reduceCtorEq, ↓reduceIte]
    split
    next hsweeper =>
      rw [finish_eq_settle hold]
      exact .inr ⟨_, _, _, c.sweeper, .aside hended, .inr ⟨.inl hr, List.subset_cons_self _ _⟩, rfl⟩
    next other hsweeper =>
      rw [setStage_eq_settle (by simp) (by simp)]
      exact .inr ⟨_, _, _, none, .aside hawait, .inr ⟨.inl hr, List.subset_cons_self _ _⟩, rfl⟩
  next h1 h2 h3 =>
    split
    next answer hroute =>
      have h : Aside c job job.stage (.finished answer) := hstage ▸ .answer hroute ⟨h1, h2, h3⟩
      rw [finish_eq_settle hold]
      exact .inr (moves_aside h)
    next store visit hroute => exact runsTo_ask hfree (hstage ▸ .call hroute)

private theorem runsTo_sweepNext
    (hfree : ∀ (s : Nat) (shelf : Shelf), c.shelves[s]? = some shelf → shelf.lock.holder ≠ some (.job id))
    {cycle : SweepCycle} (hstage : job.stage = .between cycle) :
    RunsTo c id job (c.sweepNext id job cycle) := by
  have hold : ∀ a, job.stage ≠ .finished a := by simp [hstage]
  have hend (h : cycle.rest = [] ∨ c.isCancelled job.token = true) : RunsTo c id job
      (if job.request = .sweeper then
        { c.setStage id (.idle (c.after c.interval)) with counters := c.counters.count (.swept cycle.total) }
      else c.finish id (.swept cycle.total)) := by
    split
    next hr =>
      have ha : Aside c job job.stage (.idle (c.after c.interval)) := hstage ▸ .pause h hr
      have heq : { c.setStage id (.idle (c.after c.interval)) with
          counters := c.counters.count (.swept cycle.total) } =
          c.settle id job.stage (.idle (c.after c.interval)) := by
        rw [hstage]; rfl
      rw [heq]
      exact .inr (moves_aside ha)
    next hr =>
      have ha : Aside c job job.stage (.finished (.swept cycle.total)) := hstage ▸ .swept h hr
      rw [finish_eq_settle hold]
      exact .inr (moves_aside ha)
  unfold sweepNext
  split
  next path store rest hrest hc => exact runsTo_ask hfree (hstage ▸ .mount hrest hc)
  next hne =>
    apply hend
    cases hrest : cycle.rest with
    | nil => exact .inl rfl
    | cons mount rest =>
      obtain ⟨path, store⟩ := mount
      right
      cases hc : c.isCancelled job.token with
      | true => rfl
      | false => exact absurd hc (hne path store rest hrest)

private theorem moves_leave {stage : Stage} {store : Nat} {turn : Visit.Turn} (hstage : job.stage = stage)
    (hclaim : stage.claim? = some store) {shelf : Shelf} (hs : c.shelves[store]? = some shelf)
    (h : Leaves c job stage turn) : Moves c id job ((c.leave store id).proceed id turn) := by
  subst hstage
  have hold : ∀ a, job.stage ≠ .finished a := by
    intro a ha
    rw [ha] at hclaim
    simp [Stage.claim?, Stage.inside?] at hclaim
  have hstay : ∀ visit, turn ≠ .stay visit := by
    generalize job.stage = stage at h
    cases h with
    | cancelled => exact (fail_ne_stay _ · _)
    | next _ h => exact h
    | held => simp
  rw [set_leave hs, proceed_eq_settle hold hstay]
  exact ⟨_, _, c.cancelled, c.sweeper, .leave hclaim hs h, .inl rfl, rfl⟩

/-- A run of a job does nothing or is a transition of the job. -/
theorem run_cases (hj : c.jobs[id]? = some job)
    (hfree : ∀ (s : Nat) (shelf : Shelf), c.shelves[s]? = some shelf → shelf.lock.holder = some (.job id) →
      job.stage.claim? = some s)
    (hlt : ∀ s, job.stage.claim? = some s → s < c.shelves.length) : RunsTo c id job (c.run id) := by
  have hout (h : job.stage.claim? = none) :
      ∀ (s : Nat) (shelf : Shelf), c.shelves[s]? = some shelf → shelf.lock.holder ≠ some (.job id) :=
    fun s shelf hs hh => by
    have := hfree s shelf hs hh
    simp [h] at this
  have hat {store : Nat} (h : job.stage.claim? = some store) : ∃ shelf, c.shelves[store]? = some shelf :=
    ⟨_, List.getElem?_eq_getElem (hlt store h)⟩
  -- One case for each stage, in the order of the definition.
  simp only [run, hj]
  split
  next hstage => exact runsTo_begin (hout (by rw [hstage]; rfl)) hstage
  next cycle hstage => exact runsTo_sweepNext (hout (by rw [hstage]; rfl)) hstage
  next store visit hstage =>
    obtain ⟨shelf, hs⟩ := hat (show job.stage.claim? = some store by rw [hstage]; rfl)
    have hold : ∀ a, job.stage ≠ .finished a := by simp [hstage]
    split
    next hc => exact .inr (moves_leave hstage rfl hs (.cancelled hc))
    next hc =>
      split
      next hholds =>
        have hholder : shelf.lock.holder = some (.job id) := by simpa [holds, hs] using hholds
        obtain ⟨next, shelf', cancelled, hv, hcancelled, heq⟩ := visitStore_eq hs id hold visit
        refine .inr ⟨next, _, cancelled, c.sweeper, ?_,
          hcancelled.imp_right (And.imp_left fun h => .inr ⟨store, shelf, hs, h⟩), heq⟩
        rw [hstage]
        exact .grant hs (by simpa [isCancelled] using hc) hholder hv
      next => exact .inl ⟨rfl, by simp [*]⟩
  next store visit due hstage =>
    obtain ⟨shelf, hs⟩ := hat (show job.stage.claim? = some store by rw [hstage]; rfl)
    split
    next call hcall =>
      split
      next hdue =>
        obtain ⟨cancelled, hcancelled, heq⟩ := perform_eq hs id visit call
        have ht : Transition c id job job.stage (.returned store visit (shelf.perform call).1)
            (c.shelves.set store (shelf.perform call).2) := hstage ▸ .call hs hcall hdue
        rw [heq, setStage_eq_settle (by simp) (by simp)]
        exact .inr ⟨_, _, cancelled, c.sweeper, ht,
          hcancelled.imp_right (And.imp_left fun h => .inr ⟨store, shelf, hs, h⟩), rfl⟩
      next => exact .inl ⟨rfl, by simp [*]⟩
    next => exact .inl ⟨rfl, by simp [*]⟩
  next store visit reply hstage =>
    obtain ⟨shelf, hs⟩ := hat (show job.stage.claim? = some store by rw [hstage]; rfl)
    have hold : ∀ a, job.stage ≠ .finished a := by simp [hstage]
    split
    next visit' hnext =>
      obtain ⟨next, shelf', cancelled, hv, hcancelled, heq⟩ := visitStore_eq hs id hold visit'
      refine .inr ⟨next, _, cancelled, c.sweeper, ?_,
        hcancelled.imp_right (And.imp_left fun h => .inr ⟨store, shelf, hs, h⟩), heq⟩
      rw [hstage]
      exact .stay hs hnext hv
    next turn hturn => exact .inr (moves_leave hstage rfl hs (.next rfl hturn))
  next store due hstage =>
    obtain ⟨shelf, hs⟩ := hat (show job.stage.claim? = some store by rw [hstage]; rfl)
    split
    next hdue =>
      have h : Leaves c job (.holding store due) (.answer .ended) := .held hdue
      exact .inr (moves_leave hstage rfl hs h)
    next => exact .inl ⟨rfl, by simp [*]⟩
  next due hstage =>
    have hold : ∀ a, job.stage ≠ .finished a := by simp [hstage]
    split
    next hc =>
      have h : Aside c job job.stage (.finished .ended) := hstage ▸ .stop hc
      rw [finish_eq_settle hold]
      exact .inr (moves_aside h)
    next hc =>
      split
      next hdue =>
        have h : Aside c job job.stage (.between c.fullCycle) := hstage ▸ .wake hdue (by simpa using hc)
        rw [setStage_eq_settle (by simp) (by simp)]
        exact .inr (moves_aside h)
      next => exact .inl ⟨rfl, by simp [*]⟩
  next other hstage =>
    have hold : ∀ a, job.stage ≠ .finished a := by simp [hstage]
    split
    next hover =>
      have h : Aside c job job.stage (.finished .ended) := hstage ▸ .joined hover
      rw [finish_eq_settle hold]
      exact .inr (moves_aside h)
    next => exact .inl ⟨rfl, by simp [*]⟩
  next => exact .inl ⟨rfl, by simp [*]⟩

/-- The end of the time for a mount. -/
theorem expire_eq (hj : c.jobs[id]? = some job) {store : Nat} {cycle : SweepCycle} {shelf : Shelf}
    (hk : job.stage.sweeping? = some (store, cycle)) (hd : cycle.deadline ≤ c.time)
    (hs : c.shelves[store]? = some shelf) : c.expire id =
      { c with shelves := c.shelves.set store (shelf.givenUp id (job.stage.working shelf.store)) }.settle id
        job.stage (.between cycle.skip) := by
  have hstage : c.stage? id = some job.stage := by simp [stage?, hj]
  simp only [expire, hstage, Option.bind_some, hk, if_pos hd]
  rw [set_giveUp hj hk hs, setStage_eq_settle (by simp) (by simp)]

/-- The end of the time for a mount does nothing, or the job gives up the mount. -/
theorem expire_cases (hj : c.jobs[id]? = some job)
    (hlt : ∀ s, job.stage.claim? = some s → s < c.shelves.length) :
    c.expire id = c ∨ ∃ next shelves, Expiry c id job.stage next shelves ∧
      c.expire id = { c with shelves }.settle id job.stage next := by
  have hstage : c.stage? id = some job.stage := by simp [stage?, hj]
  cases hk : job.stage.sweeping? with
  | none => exact .inl (by simp only [expire, hstage, Option.bind_some, hk])
  | some pair =>
    obtain ⟨store, cycle⟩ := pair
    by_cases hd : cycle.deadline ≤ c.time
    · have hs := List.getElem?_eq_getElem (hlt store (Stage.claim?_of_sweeping? hk))
      exact .inr ⟨_, _, .skip hk hd hs, expire_eq hj hk hd hs⟩
    · exact .inl (by simp only [expire, hstage, Option.bind_some, hk, if_neg hd])

end Cache

end RoutedCache

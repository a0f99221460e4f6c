import RoutedCache.Cache.Step

/-!
# Serving one request

`Cache.serve` starts a job and runs it until it is answered.  If the lock of its store is free and the store is
neither slow nor down, the shelf is the caller's from the first run to the last one (`run_admitted`, `run_stay`,
`run_leave`).
-/

namespace RoutedCache

/-- A store without rules that make it slow or refuse calls. -/
def Store.Plain : Store → Prop
  | faulty .. => False
  | _ => True

namespace Store

variable {store : Store}

theorem Plain.delay (h : store.Plain) (call : StoreCall) : store.delay call = 0 := by
  cases store with
  | faulty => exact h.elim
  | _ => rfl

theorem Plain.lockRefusal? (h : store.Plain) : store.lockRefusal? = none := by
  cases store with
  | faulty => exact h.elim
  | _ => rfl

theorem Plain.trips (h : store.Plain) (call : StoreCall) (reply : Reply) : store.trips call reply = false := by
  cases store with
  | faulty => exact h.elim
  | _ => rfl

theorem Plain.perform (h : store.Plain) (call : StoreCall) : (store.perform call).2.Plain := by
  cases store with
  | faulty => exact h.elim
  | _ => trivial

theorem Plain.put (h : store.Plain) (entry : KeyRecord) : (store.perform (.put entry)).1 = .done := by
  cases store with
  | faulty => exact h.elim
  | _ => rfl

theorem Plain.delete (h : store.Plain) (key : String) : (store.perform (.delete key)).1 = .done := by
  cases store with
  | faulty => exact h.elim
  | _ => rfl

theorem Plain.get (h : store.Plain) (key : String) : (store.perform (.get key)).2 = store := by
  cases store with
  | memory => rfl
  | document _ _ _ documents =>
    cases hfind : documents.find? key <;> simp [Store.perform, performDocuments, hfind]
  | faulty => exact h.elim

end Store

/-- So many runs are enough for a job that does not have to wait. -/
def Request.runs : Request → Nat
  | .calls _ left => left.length + 1
  | _ => 3

/-- A shelf that nobody asks for and that serves every request. -/
structure Shelf.Open (shelf : Shelf) : Prop where
  plain : shelf.store.Plain
  lock : shelf.lock = {}
  outages : shelf.outages = []

/-- The shelf with its lock held and another content. -/
def Shelf.heldBy (shelf : Shelf) (id : JobId) (store : Store) : Shelf :=
  { shelf with store, lock := { holder := some (.job id) } }

theorem Shelf.Open.lockRefusal? {shelf : Shelf} (h : shelf.Open) : shelf.lockRefusal? = none := by
  simp [Shelf.lockRefusal?, Shelf.outage?, h.outages, h.plain.lockRefusal?]

theorem Shelf.Open.requested {shelf : Shelf} (h : shelf.Open) : shelf.requested = shelf := by
  obtain ⟨store, lock, outages⟩ := shelf
  cases h.outages
  rfl

theorem Shelf.perform_eq {shelf : Shelf} (ho : shelf.outages = []) (call : StoreCall) : shelf.perform call =
    ((shelf.store.perform call).1, { shelf with store := (shelf.store.perform call).2 }) := by
  simp [Shelf.perform, Shelf.outage?, Shelf.requested, ho]

theorem Shelf.Open.filled {shelf : Shelf} (h : shelf.Open) {store : Store} (hp : store.Plain) :
    Shelf.Open { shelf with store } := ⟨hp, h.lock, h.outages⟩

namespace Cache

/-- Starts a job and runs it until it is over. -/
def serve (c : Cache) (request : Request) (token : Token) : Cache :=
  c.steps (.start request token :: List.replicate request.runs (.run c.jobs.length))

/-- The cache with one shelf replaced and one more job. -/
def engaged (c : Cache) (store : Nat) (shelf : Shelf) (job : Job) : Cache :=
  { c with shelves := c.shelves.set store shelf, jobs := c.jobs ++ [job] }

variable {c : Cache} {store : Nat} {shelf : Shelf} {job : Job}

theorem step_start (hs : c.shelves[store]? = some shelf) (request : Request) (token : Token) :
    c.step (.start request token) = c.engaged store shelf { request, token } := by
  obtain ⟨hlt, rfl⟩ := List.getElem?_eq_some_iff.1 hs
  simp [step, engaged]

theorem jobs_engaged (shelf : Shelf) (job : Job) :
    (c.engaged store shelf job).jobs[c.jobs.length]? = some job := by
  simp [engaged]

theorem shelf_engaged (hlt : store < c.shelves.length) (shelf : Shelf) (job : Job) :
    (c.engaged store shelf job).shelves[store]? = some shelf := by
  simp [engaged, hlt]

theorem set_engaged (shelf shelf' : Shelf) (job : Job) :
    ({ c.engaged store shelf job with
      shelves := (c.engaged store shelf job).shelves.set store shelf' } : Cache) =
      c.engaged store shelf' job := by
  simp [engaged]

/-- The latest job goes to another stage. -/
theorem setStage_last (jobs : List Job) (job : Job) (stage : Stage) :
    ({ c with jobs := jobs ++ [job] } : Cache).setStage jobs.length stage =
      { c with jobs := jobs ++ [{ job with stage }] } := by
  have hmodify : (jobs ++ [job]).modify jobs.length (fun job => { job with stage }) =
      jobs ++ [{ job with stage }] := by
    induction jobs with
    | nil => rfl
    | cons first rest ih => simp [ih]
  simp only [setStage, hmodify]

theorem setStage_engaged (shelf : Shelf) (job : Job) (stage : Stage) :
    (c.engaged store shelf job).setStage c.jobs.length stage = c.engaged store shelf { job with stage } :=
  setStage_last (c := { c with shelves := c.shelves.set store shelf }) c.jobs job stage

theorem finish_engaged (shelf : Shelf) (job : Job) (answer : Answer) :
    (c.engaged store shelf job).finish c.jobs.length answer =
      { c with counters := c.counters.count answer }.engaged store shelf
        { job with stage := .finished answer } := by
  rw [finish, setStage_engaged]
  rfl

theorem setLock_engaged (hlt : store < c.shelves.length) (shelf : Shelf) (job : Job) (f : Lock → Lock) :
    (c.engaged store shelf job).setLock store f = c.engaged store { shelf with lock := f shelf.lock } job := by
  simp only [setLock, engaged]
  congr 1
  apply List.ext_getElem?
  intro i
  rw [List.getElem?_modify, List.getElem?_set, List.getElem?_set]
  by_cases hi : store = i
  · subst hi; simp [hlt]
  · simp [hi]

theorem visitStore_engaged (shelf : Shelf) (hlt : store < c.shelves.length) (hp : shelf.store.Plain)
    (ho : shelf.outages = []) {visit : Visit} {call : StoreCall} (hcall : visit.call? = some call) :
    (c.engaged store shelf job).visitStore c.jobs.length store visit =
      c.engaged store { shelf with store := (shelf.store.perform call).2 }
        { job with stage := .returned store visit (shelf.store.perform call).1 } := by
  have hset : (c.engaged store shelf job).perform c.jobs.length store visit call =
      c.engaged store { shelf with store := (shelf.store.perform call).2 }
        { job with stage := .returned store visit (shelf.store.perform call).1 } := by
    simp only [perform, shelf_engaged hlt, Shelf.perform_eq ho, hp.trips, Bool.false_eq_true, ↓reduceIte]
    rw [set_engaged, setStage_engaged]
  have hdelay : (c.engaged store shelf job).delay store call = 0 := by
    simp only [delay, shelf_engaged hlt, hp.delay]
  unfold visitStore
  split
  next => simp [Visit.call?] at hcall
  next call' _ hcall' =>
    obtain rfl : call = call' := by simpa [hcall] using hcall'
    rw [if_pos hdelay, hset]
  next hcall' => rw [hcall] at hcall'; cases hcall'
  next hcall' => rw [hcall] at hcall'; cases hcall'

/-- The lock is free, so the job that asks for it goes on with the shelf. -/
theorem ask_engaged (hlt : store < c.shelves.length) (h : shelf.Open) {request : Request} {token : Token}
    (hc : c.isCancelled token = false) (visit : Visit) :
    (c.engaged store shelf { request, token }).ask c.jobs.length token store visit =
      (c.engaged store (shelf.heldBy c.jobs.length shelf.store) { request, token }).visitStore c.jobs.length
        store
        visit := by
  have hcancelled : ∀ shelves : List Shelf,
      ({ c.engaged store shelf { request, token } with shelves } : Cache).isCancelled token = false :=
        fun _ => hc
  simp only [ask, shelf_engaged hlt, h.lockRefusal?, hcancelled, Bool.false_eq_true, ↓reduceIte, h.requested,
    set_engaged]
  rw [setLock_engaged hlt]
  have hlock : ({ shelf with lock := shelf.lock.ask c.jobs.length } : Shelf) =
      shelf.heldBy c.jobs.length shelf.store := by
    simp [Shelf.heldBy, h.lock, Lock.ask]
  rw [hlock, if_pos]
  simp [holds, shelf_engaged hlt, Shelf.heldBy]

theorem leave_engaged (hlt : store < c.shelves.length) (h : shelf.Open) (content : Store) (job : Job) :
    (c.engaged store (shelf.heldBy c.jobs.length content) job).leave store c.jobs.length =
      c.engaged store { shelf with store := content } job := by
  rw [leave, setLock_engaged hlt]
  simp [Shelf.heldBy, Lock.leave, Lock.handOver, h.lock]

/-! ### The runs of the job -/

theorem begin_admitted {request : Request} {visit : Visit}
    (hroute : request.route c.mounts c.clock = .ok (store, visit)) {id : JobId} (hr : job.request = request) :
    c.begin id job = c.ask id job.token store visit := by
  subst hr
  unfold begin
  split
  next hr => rw [hr] at hroute; cases hroute
  next hr => rw [hr] at hroute; cases hroute
  next hr => rw [hr] at hroute; cases hroute
  next => simp only [hroute]

variable {request : Request} {token : Token} {visit : Visit}

theorem run_start (hlt : store < c.shelves.length) (h : shelf.Open)
    (hroute : request.route c.mounts c.clock = .ok (store, visit)) (hc : c.isCancelled token = false) :
    (c.engaged store shelf { request, token }).run c.jobs.length =
      (c.engaged store (shelf.heldBy c.jobs.length shelf.store) { request, token }).visitStore c.jobs.length
        store
        visit := by
  have hroute' : request.route (c.engaged store shelf { request, token }).mounts
      (c.engaged store shelf { request, token }).clock = .ok (store, visit) := hroute
  simp only [run, jobs_engaged]
  rw [begin_admitted hroute' rfl, ask_engaged hlt h hc]

/-- The first run takes the free lock and makes the first call. -/
theorem run_admitted (hlt : store < c.shelves.length) (h : shelf.Open)
    (hroute : request.route c.mounts c.clock = .ok (store, visit)) (hc : c.isCancelled token = false)
    {call : StoreCall} (hcall : visit.call? = some call) :
    (c.engaged store shelf { request, token }).run c.jobs.length =
      c.engaged store (shelf.heldBy c.jobs.length (shelf.store.perform call).2)
        { request, token, stage := .returned store visit (shelf.store.perform call).1 } := by
  rw [run_start hlt h hroute hc]
  exact visitStore_engaged (shelf.heldBy c.jobs.length shelf.store) hlt h.plain h.outages hcall

/-- A run that makes one more call. -/
theorem run_stay (request : Request) (hlt : store < c.shelves.length) (h : shelf.Open) {content : Store}
    (hp : content.Plain) {reply : Reply} {visit' : Visit}
    (hnext : visit.next c.clock (c.isCancelled token) reply = .stay visit')
    {call : StoreCall} (hcall : visit'.call? = some call) :
    (c.engaged store (shelf.heldBy c.jobs.length content)
        { request, token, stage := .returned store visit reply }).run c.jobs.length =
      c.engaged store (shelf.heldBy c.jobs.length (content.perform call).2)
        { request, token, stage := .returned store visit' (content.perform call).1 } := by
  have hnext' : visit.next (c.engaged store (shelf.heldBy c.jobs.length content)
      { request, token, stage := .returned store visit reply }).clock
        ((c.engaged store (shelf.heldBy c.jobs.length content)
          { request, token, stage := .returned store visit reply }).isCancelled token) reply =
        .stay visit' := hnext
  simp only [run, jobs_engaged, hnext']
  exact visitStore_engaged (shelf.heldBy c.jobs.length content) hlt hp h.outages hcall

/-- A run that leaves the store with an answer. -/
theorem run_leave (hlt : store < c.shelves.length) (h : shelf.Open) {content : Store} {reply : Reply}
    {answer : Answer} (hnext : visit.next c.clock (c.isCancelled token) reply = .answer answer) :
    (c.engaged store (shelf.heldBy c.jobs.length content)
        { request, token, stage := .returned store visit reply }).run c.jobs.length =
      { c with counters := c.counters.count answer }.engaged store { shelf with store := content }
        { request, token, stage := .finished answer } := by
  have hnext' : visit.next (c.engaged store (shelf.heldBy c.jobs.length content)
      { request, token, stage := .returned store visit reply }).clock
        ((c.engaged store (shelf.heldBy c.jobs.length content)
          { request, token, stage := .returned store visit reply }).isCancelled token) reply =
        .answer answer := hnext
  simp only [run, jobs_engaged, hnext', leave_engaged hlt h, proceed, finish_engaged]

theorem runs_over {id : JobId} {answer : Answer} (hj : c.jobs[id]? = some job)
    (hs : job.stage = .finished answer) (n : Nat) : c.steps (List.replicate n (.run id)) = c := by
  induction n with
  | zero => rfl
  | succ n ih =>
    have hrun : c.step (.run id) = c := by simp only [step, run, hj, hs]
    rw [List.replicate_succ, steps, List.foldl_cons, hrun]
    exact ih

end Cache

end RoutedCache

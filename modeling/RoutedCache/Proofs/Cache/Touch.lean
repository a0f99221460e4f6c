import RoutedCache.Proofs.Cache.Failures
import RoutedCache.Proofs.Store.Frame

/-!
# Calls that change stores

A turn of a job changes a store only by a call that is acknowledged (`Transition.touches`).  With the
acknowledgement a write, a read or a delete is as good as over: its answer can only be the one that says so
(`LocksSound.acknowledged_steps`).  While a job is at work in a store, no other job changes it
(`LocksSound.store_same`).
-/

namespace RoutedCache

theorem storesOn_set_perform (shelves : List Shelf) (s : Nat) (shelf : Shelf) :
    storesOn (shelves.set s shelf) = (storesOn shelves).set s shelf.store := List.map_set ..

theorem getElem?_storesOn_set {shelves : List Shelf} {s : Nat} {shelf : Shelf} (hs : shelves[s]? = some shelf)
    (shelf' : Shelf) : (storesOn (shelves.set s shelf'))[s]? = some shelf'.store := by
  rw [storesOn, List.getElem?_map, List.getElem?_set_self (List.getElem?_eq_some_iff.1 hs).1, Option.map_some]

theorem Cache.getElem?_stores (c : Cache) (s : Nat) : c.stores[s]? = c.shelves[s]?.map (·.store) :=
  List.getElem?_map ..

theorem Cache.store_of_shelf {c : Cache} {s : Nat} {shelf : Shelf} (h : c.shelves[s]? = some shelf) :
    c.stores[s]? = some shelf.store := by
  rw [getElem?_stores, h, Option.map_some]

/-- The entry of a key in the store with this number. -/
def cellAt (shelves : List Shelf) (s : Nat) (key : String) : Option Cell :=
  shelves[s]?.bind fun shelf => shelf.store.cell? key

theorem cellAt_of_shelf {shelves : List Shelf} {s : Nat} {shelf : Shelf} (hs : shelves[s]? = some shelf) (key : String) :
    cellAt shelves s key = shelf.store.cell? key := by
  rw [cellAt, hs, Option.bind_some]

/-- The entries of a shelf hang on its store alone. -/
theorem cellAt_eq_bind (shelves : List Shelf) (s : Nat) (key : String) :
    cellAt shelves s key = (storesOn shelves)[s]?.bind (·.cell? key) := by
  rw [cellAt, storesOn, List.getElem?_map, Option.bind_map]
  rfl

theorem Shelf.perform_done {shelf : Shelf} {call : StoreCall} (h : (shelf.perform call).1 = .done) :
    (shelf.store.perform call).1 = .done ∧ (shelf.perform call).2.store = (shelf.store.perform call).2 := by
  unfold Shelf.perform at h ⊢
  split at h
  next => cases h
  next => exact ⟨h, rfl⟩

variable {c : Cache} {id : JobId} {job : Job} {event : Event}

section Transition

variable {old new : Stage} {shelves : List Shelf}

/-- The shelf of a store at a call that a job makes in its turn: a job that comes in has asked for the lock. -/
def Cache.shelfFor? (c : Cache) (id : JobId) (s : Nat) : Stage → Option Shelf
  | .ready | .between _ => c.shelves[s]?.map (·.asked id)
  | _ => c.shelves[s]?

theorem Cache.shelf_of_shelfFor? {s : Nat} {shelf : Shelf} (h : c.shelfFor? id s old = some shelf) :
    ∃ shelf', c.shelves[s]? = some shelf' ∧ shelf.store = shelf'.store := by
  have hasked (h : c.shelves[s]?.map (·.asked id) = some shelf) :
      ∃ shelf', c.shelves[s]? = some shelf' ∧ shelf.store = shelf'.store := by
    obtain ⟨shelf', hs, rfl⟩ := Option.map_eq_some_iff.1 h
    exact ⟨shelf', hs, rfl⟩
  cases old with
  | ready => exact hasked h
  | between => exact hasked h
  | _ => exact ⟨shelf, h, rfl⟩

/-- A job that wants the lock of a store asks for it before it makes its call. -/
theorem Wants.shelfFor? {s : Nat} {visit : Visit} {shelf : Shelf} (hw : Wants c job old s visit)
    (hs : c.shelves[s]? = some shelf) : c.shelfFor? id s old = some (shelf.asked id) := by
  cases hw <;> exact Option.map_eq_some_iff.2 ⟨shelf, hs, rfl⟩

/-- A turn that ends with a reply has made the call. -/
theorem Transition.made {s : Nat} {visit : Visit} {reply : Reply}
    (ht : Transition c id job old (.returned s visit reply) shelves) :
    ∃ (shelf : Shelf) (call : StoreCall), c.shelfFor? id s old = some shelf ∧ visit.call? = some call ∧
      reply = (shelf.perform call).1 ∧ shelves = c.shelves.set s (shelf.perform call).2 := by
  have hvisits {s' : Nat} {visit' : Visit} {shelf shelf' : Shelf} (hs : c.shelfFor? id s' old = some shelf)
      (hv : Visits c id s' shelf visit' (.returned s visit reply) shelf') :
      ∃ (shelf : Shelf) (call : StoreCall), c.shelfFor? id s old = some shelf ∧ visit.call? = some call ∧
        reply = (shelf.perform call).1 ∧ c.shelves.set s' shelf' = c.shelves.set s (shelf.perform call).2 := by
    cases hv with
    | call hc => exact ⟨shelf, _, hs, hc, rfl, rfl⟩
  generalize hnew : Stage.returned s visit reply = new at ht
  cases ht with
  | aside ha => cases ha <;> cases hnew
  | refuse => exact absurd hnew (Stage.ne_turn rfl _)
  | cancel => exact absurd hnew (Stage.ne_turn rfl _)
  | queue => cases hnew
  | enter hw hs _ _ _ hv =>
    subst hnew
    exact hvisits (hw.shelfFor? hs) hv
  | grant hs _ _ hv =>
    subst hnew
    exact hvisits hs hv
  | call hs hc =>
    cases hnew
    exact ⟨_, _, hs, hc, rfl, rfl⟩
  | stay hs _ hv =>
    subst hnew
    exact hvisits hs hv
  | leave => exact absurd hnew (Stage.ne_turn rfl _)

/-- What a change of stage has done to the stores: nothing, or one call that was acknowledged. -/
inductive Touches (c : Cache) (shelves : List Shelf) : Stage → Prop
  | rest {new : Stage} (h : storesOn shelves = c.stores) : Touches c shelves new
  | call {s : Nat} {visit : Visit} {call : StoreCall} {store : Store} (hc : visit.call? = some call)
      (hs : c.stores[s]? = some store) (hd : (store.perform call).1 = .done)
      (h : storesOn shelves = c.stores.set s (store.perform call).2) :
      Touches c shelves (.returned s visit .done)

private theorem Touches.perform {s : Nat} {visit : Visit} {shelf asked : Shelf} {call : StoreCall}
    (hc : visit.call? = some call) (hs : c.shelves[s]? = some shelf) (hstore : asked.store = shelf.store) :
    Touches c (c.shelves.set s (asked.perform call).2) (.returned s visit (asked.perform call).1) := by
  by_cases hreply : (asked.perform call).1 = .done
  · obtain ⟨hdone, hperform⟩ := Shelf.perform_done hreply
    rw [hstore] at hdone hperform
    rw [hreply]
    refine .call hc (Cache.store_of_shelf hs) hdone ?_
    rw [storesOn_set_perform, hperform]
    rfl
  · exact .rest (storesOn_set hs ((Shelf.store_perform hreply).trans hstore))

private theorem Visits.touches {s : Nat} {visit : Visit} {shelf asked shelf' : Shelf}
    (hv : Visits c id s asked visit new shelf') (hs : c.shelves[s]? = some shelf)
    (hstore : asked.store = shelf.store) :
    Touches c (c.shelves.set s shelf') new := by
  cases hv with
  | call hc => exact .perform hc hs hstore
  | _ => exact .rest (storesOn_set hs hstore)

/-- A transition of a job changes the stores by one acknowledged call at most. -/
theorem Transition.touches (ht : Transition c id job old new shelves) : Touches c shelves new := by
  cases ht with
  | aside => exact .rest rfl
  | refuse _ hs => exact .rest (storesOn_set hs rfl)
  | cancel _ hs => exact .rest (storesOn_set hs rfl)
  | queue _ hs => exact .rest (storesOn_set hs rfl)
  | enter _ hs _ _ _ hv => exact hv.touches hs rfl
  | grant hs _ _ hv => exact hv.touches hs rfl
  | call hs hc => exact .perform hc hs rfl
  | stay hs _ hv => exact hv.touches hs rfl
  | leave _ hs => exact .rest (storesOn_set hs rfl)

end Transition

namespace Cache

/-- What an event comes to for the job whose turn it is. -/
inductive Moved (c : Cache) (id : JobId) (job : Job) (event : Event) (next : Cache) : Prop
  | same (h : next = c)
  | turn {new shelves} (he : event = .run id) (ht : Transition c id job job.stage new shelves)
      (hs : next.stores = storesOn shelves) (hj : next.jobs[id]? = some { job with stage := new })
  | skip {new shelves} (he : event = .expire id) (hx : Expiry c id job.stage new shelves)
      (hs : next.stores = c.stores) (hj : next.jobs[id]? = some { job with stage := new })

namespace LocksSound

theorem moved (h : c.LocksSound) (hj : c.jobs[id]? = some job) (hm : event.Moves id) :
    Moved c id job event (c.step event) := by
  cases event with
  | run j =>
    obtain rfl : j = id := hm
    rcases h.run_cases hj with ⟨hrun, -⟩ | ⟨new, shelves, cancelled, sweeper, ht, -, hrun⟩
    · exact .same hrun
    · refine .turn rfl ht (congrArg stores hrun) ?_
      rw [Cache.step, hrun, getElem?_settle hj, if_pos rfl]
  | expire j =>
    obtain rfl : j = id := hm
    rcases h.expire_cases j with heq | ⟨job', new, shelves, hj', hx, heq⟩
    · exact .same heq
    · obtain rfl := Option.some.inj (hj.symm.trans hj')
      refine .skip rfl hx ?_ ?_
      · cases hx with
        | skip _ _ hs => exact (congrArg stores heq).trans (storesOn_set hs rfl)
      · rw [Cache.step, heq, getElem?_settle hj _ _ c.sweeper, if_pos rfl]
  | _ => exact hm.elim

/-- A job stays at its stage but for its own turns. -/
theorem stage?_same (h : c.LocksSound) {stage : Stage} (hs : c.stage? id = some stage)
    (hm : ¬event.Moves id) :
    (c.step event).stage? id = some stage := by
  cases hj : c.jobs[id]? with
  | none => simp [stage?, hj] at hs
  | some job => rw [stage?_eq (h.job_same hj hm), ← stage?_eq hj, hs]

/-- While a job is at work in a store, the turns of the other jobs leave the store as it is. -/
theorem store_same (h : c.LocksSound) {s : Nat} (hi : c.inside? id = some s) (hm : ¬event.Moves id) :
    (c.step event).stores[s]? = c.stores[s]? := by
  have hnext := h.step event
  have hstill : (c.step event).inside? id = some s := by
    obtain ⟨stage, hs, hin⟩ := Option.bind_eq_some_iff.1 hi
    exact Option.bind_eq_some_iff.2 ⟨stage, h.stage?_same hs hm, hin⟩
  have heffect := h.effect event
  generalize c.step event = c' at heffect hnext hstill ⊢
  cases heffect with
  | start => rfl
  | aside => rfl
  | skip _ _ he =>
    cases he with
    | skip _ _ hs => exact congrArg (·[s]?) (storesOn_set hs rfl)
  | complete _ hs => exact congrArg (·[s]?) (storesOn_set hs rfl)
  | @turn j other _ shelves cancelled sweeper hmoves hj ht =>
    show (storesOn shelves)[s]? = _
    cases ht.touches with
    | rest heq => rw [heq]
    | @call s' visit _ _ _ _ _ heq =>
      -- The other job has just made a call, so it is at work in the store that the call has changed.
      have hother : ({ c with shelves, cancelled, sweeper }.settle j other.stage
          (.returned s' visit .done)).inside? j = some s' := by
        rw [inside?, stage?_settle hj, if_pos rfl]
        rfl
      have hne : s' ≠ s := by
        rintro rfl
        rw [hnext.exclusive hother hstill] at hmoves
        exact hm hmoves
      rw [heq, List.getElem?_set_ne hne]

/-- No event changes anything of a store but what it keeps. -/
theorem bare_step (h : c.LocksSound) (event : Event) :
    (c.step event).stores.map Store.bare = c.stores.map Store.bare := by
  have heffect := h.effect event
  generalize c.step event = c' at heffect ⊢
  cases heffect with
  | start => rfl
  | aside => rfl
  | skip _ _ he =>
    cases he with
    | skip _ _ hs => exact congrArg (List.map Store.bare) (storesOn_set hs rfl)
  | complete _ hs => exact congrArg (List.map Store.bare) (storesOn_set hs rfl)
  | @turn _ _ _ shelves _ _ _ _ ht =>
    show (storesOn shelves).map Store.bare = _
    cases ht.touches with
    | rest heq => rw [heq]
    | @call s _ _ store _ hs _ heq =>
      rw [heq, List.map_set, Store.bare_perform]
      refine List.ext_getElem? fun i => ?_
      rw [List.getElem?_set]
      split
      next hi =>
        obtain rfl := hi
        obtain ⟨hlt, hget⟩ := List.getElem?_eq_some_iff.1 hs
        simp [hlt, hget]
      next => rfl

theorem bare_steps (h : c.LocksSound) (events : List Event) :
    (c.steps events).stores.map Store.bare = c.stores.map Store.bare := by
  induction events generalizing c with
  | nil => rfl
  | cons event events ih => exact (ih (h.step event)).trans (h.bare_step event)

theorem length_steps (h : c.LocksSound) (events : List Event) :
    (c.steps events).shelves.length = c.shelves.length := by
  have hlength := congrArg List.length (h.bare_steps events)
  simpa [stores, storesOn] using hlength

/-- A job that has waited long enough makes its call. -/
theorem returned_of_due (h : c.LocksSound) (hj : c.jobs[id]? = some job) {s due : Nat} {visit : Visit}
    {call : StoreCall} (hstage : job.stage = .pausing s visit due) (hcall : visit.call? = some call)
    (hd : due ≤ c.time) :
    ∃ reply, (c.step (.run id)).jobs[id]? = some { job with stage := .returned s visit reply } := by
  have hlt : s < c.shelves.length := h.placed id s (by rw [claim?_eq hj, hstage]; rfl)
  obtain ⟨shelf, hs⟩ : ∃ shelf, c.shelves[s]? = some shelf := ⟨_, List.getElem?_eq_getElem hlt⟩
  refine ⟨(shelf.perform call).1, ?_⟩
  simp only [Cache.step, Cache.run, hj, hstage, hcall, hd, if_true, perform, hs]
  split
  next => simp [cancel, setStage, hj]
  next => simp [setStage, hj]

/-- A job that is answered on an acknowledgement waits for its next turn, and then it is over. -/
theorem acknowledged_steps (h : c.LocksSound) {s : Nat} {visit : Visit} {answer : Answer}
    (hs : c.stage? id = some (.returned s visit .done))
    (hnext : ∀ clock cancelled, visit.next clock cancelled .done = .answer answer) (events : List Event) :
    (c.steps events).stage? id = some (.returned s visit .done) ∨
      (c.steps events).stage? id = some (.finished answer) := by
  have hsweep : (Stage.returned s visit .done).sweeping? = none := by
    have hanswer := hnext default false
    cases visit with
    | list => cases hanswer
    | evict =>
      simp only [Visit.next, Visit.sweepOn] at hanswer
      split at hanswer <;> cases hanswer
    | _ => rfl
  induction events generalizing c with
  | nil => exact .inl hs
  | cons event events ih =>
    by_cases hm : event.Moves id
    · cases event with
      | run j =>
        obtain rfl : j = id := hm
        obtain ⟨job, hj, hstage⟩ := Option.map_eq_some_iff.1 hs
        have hrun : (c.step (.run j)).jobs[j]? = some { job with stage := .finished answer } := by
          simp [Cache.step, run, hj, hstage, hnext, proceed, finish, setStage, Cache.leave, setLock]
        exact .inr (stage?_eq ((h.step (.run j)).over_steps hrun rfl events))
      | expire j =>
        obtain rfl : j = id := hm
        have hsame : c.step (.expire j) = c := by simp [Cache.step, Cache.expire, hs, hsweep]
        have hlast := ih h hs
        rwa [← hsame] at hlast
      | _ => exact hm.elim
    · exact ih (h.step event) (h.stage?_same hs hm)

end LocksSound

end Cache

end RoutedCache

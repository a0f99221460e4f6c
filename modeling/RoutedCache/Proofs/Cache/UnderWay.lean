import RoutedCache.Proofs.Cache.Desertion
import RoutedCache.Proofs.Cache.Lives
import RoutedCache.Proofs.Cache.Shelves

/-!
# Calls that are under way

The effect of a call comes when the call is made, although a call on documents may be under way for a while after this,
even if its job has gone.  Nobody can tell: until the end of the call no event reads or changes the documents of its
store (`LocksSound.step_withDocuments`), so everything is the same if the effect comes only with the end
(`LocksSound.late_effect`).
-/

namespace RoutedCache

/-- The store with other documents; a store in memory stays as it is. -/
def Store.withDocuments (documents : Documents) : Store → Store
  | .document file collection opened _ => .document file collection opened documents
  | store => store

namespace Store

variable (store : Store) (documents : Documents)

@[simp] theorem yields_withDocuments : (store.withDocuments documents).yields = store.yields := by
  cases store <;> rfl

@[simp] theorem lockRefusal?_withDocuments :
    (store.withDocuments documents).lockRefusal? = store.lockRefusal? := by
  cases store <;> rfl

@[simp] theorem withDocuments_withDocuments (other : Documents) :
    (store.withDocuments other).withDocuments documents = store.withDocuments documents := by
  cases store <;> rfl

end Store

def Shelf.withDocuments (documents : Documents) (shelf : Shelf) : Shelf :=
  { shelf with store := shelf.store.withDocuments documents }

@[simp] theorem Shelf.lockRefusal?_withDocuments (shelf : Shelf) (documents : Documents) :
    (shelf.withDocuments documents).lockRefusal? = shelf.lockRefusal? := by
  simp [Shelf.lockRefusal?, Shelf.withDocuments, Shelf.outage?]

namespace Cache

def withDocuments (c : Cache) (s : Nat) (documents : Documents) : Cache :=
  { c with shelves := c.shelves.modify s (Shelf.withDocuments documents) }

variable (c : Cache) (s i : Nat) (documents : Documents) (id : JobId)

theorem getElem?_withDocuments : (c.withDocuments s documents).shelves[i]? =
    c.shelves[i]?.map fun shelf => if s = i then shelf.withDocuments documents else shelf := by
  rw [withDocuments, List.getElem?_modify]
  rfl

/-! ### Parts of a turn

The parts of a turn that do not make a call to the store are the same with other documents in it. -/

theorem setLock_withDocuments (f : Lock → Lock) :
    (c.withDocuments s documents).setLock i f = (c.setLock i f).withDocuments s documents := by
  refine congrArg (fun shelves => { c with shelves : Cache }) (List.ext_getElem? fun j => ?_)
  simp only [withDocuments, setLock, List.getElem?_modify]
  cases c.shelves[j]? with
  | none => rfl
  | some shelf =>
    by_cases hi : i = j <;> by_cases hs : s = j <;> simp [hi, hs, Shelf.withDocuments]

theorem holds_withDocuments : (c.withDocuments s documents).holds i id = c.holds i id := by
  unfold holds
  rw [getElem?_withDocuments]
  cases c.shelves[i]? with
  | none => rfl
  | some shelf =>
    simp only [Option.map_some]
    split <;> rfl

theorem yielded_withDocuments : (c.withDocuments s documents).yielded id = c.yielded id := by
  have hyields (i : Nat) : (c.withDocuments s documents).shelves[i]?.map (·.store.yields) =
      c.shelves[i]?.map (·.store.yields) := by
    rw [getElem?_withDocuments]
    cases c.shelves[i]? with
    | none => rfl
    | some shelf =>
      simp only [Option.map_some]
      split
      next => simp [Shelf.withDocuments]
      next => rfl
  have hstage : (c.withDocuments s documents).stage? id = c.stage? id := rfl
  simp only [yielded, hstage, hyields]

theorem leave_withDocuments :
    (c.withDocuments s documents).leave i id = (c.leave i id).withDocuments s documents :=
  setLock_withDocuments ..

theorem giveUp_withDocuments :
    (c.withDocuments s documents).giveUp i id = (c.giveUp i id).withDocuments s documents := by
  simp only [giveUp, yielded_withDocuments, setLock_withDocuments, leave_withDocuments]
  split <;> rfl

theorem proceed_withDocuments (turn : Visit.Turn) :
    (c.withDocuments s documents).proceed id turn = (c.proceed id turn).withDocuments s documents := by
  cases turn <;> rfl

theorem cancel_withDocuments (token : Token) :
    (c.withDocuments s documents).cancel token = (c.cancel token).withDocuments s documents := by
  unfold cancel
  split <;> rfl

variable {c s i id}

/-! ### Calls to other stores -/

theorem set_withDocuments {shelf : Shelf} (hne : s ≠ i) :
    { c.withDocuments s documents with shelves := (c.withDocuments s documents).shelves.set i shelf } =
      { c with shelves := c.shelves.set i shelf }.withDocuments s documents := by
  refine congrArg (fun shelves => { c with shelves : Cache }) (List.ext_getElem? fun j => ?_)
  by_cases hi : i = j
  · subst hi
    simp [withDocuments, List.getElem?_set, hne]
  · simp [withDocuments, List.getElem?_modify, hi]

theorem getElem?_withDocuments_of_ne (hne : s ≠ i) :
    (c.withDocuments s documents).shelves[i]? = c.shelves[i]? := by
  simp [getElem?_withDocuments, hne]

theorem perform_withDocuments (hne : s ≠ i) (visit : Visit) (call : StoreCall) :
    (c.withDocuments s documents).perform id i visit call =
      (c.perform id i visit call).withDocuments s documents := by
  simp only [perform, getElem?_withDocuments_of_ne documents hne]
  cases c.shelves[i]? with
  | none => rfl
  | some shelf =>
    dsimp only
    rw [set_withDocuments documents hne]
    split
    next => rw [cancel_withDocuments]; rfl
    next => rfl

theorem visitStore_withDocuments (hne : s ≠ i) (visit : Visit) :
    (c.withDocuments s documents).visitStore id i visit = (c.visitStore id i visit).withDocuments s documents := by
  have hdelay (call : StoreCall) : (c.withDocuments s documents).delay i call = c.delay i call := by
    simp only [delay, getElem?_withDocuments_of_ne documents hne]
  unfold visitStore
  split
  next => rfl
  next =>
    rw [hdelay]
    split
    next => exact perform_withDocuments documents hne ..
    next => rfl
  next => rw [leave_withDocuments]; rfl
  next => rfl

/-! ### Turns of other jobs -/

/-- The lock of the store is held, and not by the job. -/
def Busy (c : Cache) (s : Nat) (id : JobId) : Prop :=
  ∃ shelf holder, c.shelves[s]? = some shelf ∧ shelf.lock.holder = some holder ∧ holder ≠ .job id

/-- A job does not get a busy lock by asking for it. -/
theorem Busy.not_holds (h : c.Busy s id) {shelf : Shelf} (hs : c.shelves[s]? = some shelf) :
    ({ c with shelves := c.shelves.set s shelf.requested }.setLock s (·.ask id)).holds s id = false := by
  obtain ⟨shelf', holder, hs', hholder, hne⟩ := h
  obtain rfl := Option.some.inj (hs.symm.trans hs')
  have hlt := (List.getElem?_eq_some_iff.1 hs).1
  simp [holds, setLock, hlt, Shelf.requested, Lock.holder_ask hholder, hne]

private theorem set_requested {shelf : Shelf} (hs : c.shelves[i]? = some shelf) :
    { c.withDocuments s documents with
        shelves := (c.withDocuments s documents).shelves.set i
          (if s = i then shelf.withDocuments documents else shelf).requested } =
      { c with shelves := c.shelves.set i shelf.requested }.withDocuments s documents := by
  by_cases hsi : s = i
  · subst hsi
    refine congrArg (fun shelves => { c with shelves : Cache }) (List.ext_getElem? fun j => ?_)
    have hlt := (List.getElem?_eq_some_iff.1 hs).1
    by_cases hj : s = j
    · subst hj
      simp [withDocuments, hlt, Shelf.requested, Shelf.withDocuments]
    · simp [withDocuments, hj]
  · rw [if_neg hsi, set_withDocuments documents hsi]

theorem ask_withDocuments (hb : c.Busy s id) (token : Token) (visit : Visit) :
    (c.withDocuments s documents).ask id token i visit = (c.ask id token i visit).withDocuments s documents := by
  simp only [ask, getElem?_withDocuments]
  cases hs : c.shelves[i]? with
  | none => rfl
  | some shelf =>
    have hrefusal : (if s = i then shelf.withDocuments documents else shelf).lockRefusal? = shelf.lockRefusal? := by
      split <;> simp
    have hnot : ({ c with shelves := c.shelves.set i shelf.requested }.setLock i (·.ask id)).holds i id = true →
        s ≠ i := by
      rintro hholds rfl
      rw [hb.not_holds hs] at hholds
      cases hholds
    simp only [Option.map_some, hrefusal, set_requested documents hs]
    generalize { c with shelves := c.shelves.set i shelf.requested } = asked at hnot
    have hcancelled : (asked.withDocuments s documents).isCancelled token = asked.isCancelled token := rfl
    cases shelf.lockRefusal? with
    | some fault => exact proceed_withDocuments ..
    | none =>
      dsimp only
      rw [hcancelled, setLock_withDocuments, holds_withDocuments]
      split
      next => exact proceed_withDocuments ..
      next =>
        split
        next hholds => exact visitStore_withDocuments documents (hnot hholds) visit
        next => rfl

theorem sweepNext_withDocuments (hb : c.Busy s id) (job : Job) (cycle : SweepCycle) :
    (c.withDocuments s documents).sweepNext id job cycle = (c.sweepNext id job cycle).withDocuments s documents := by
  have hcancelled : (c.withDocuments s documents).isCancelled job.token = c.isCancelled job.token := rfl
  simp only [sweepNext, hcancelled]
  split
  next => exact ask_withDocuments documents hb ..
  next => split <;> rfl

theorem begin_withDocuments (hb : c.Busy s id) (job : Job) :
    (c.withDocuments s documents).begin id job = (c.begin id job).withDocuments s documents := by
  have hroute : job.request.route (c.withDocuments s documents).mounts (c.withDocuments s documents).clock =
      job.request.route c.mounts c.clock := rfl
  unfold begin
  split
  next => rfl
  next => rfl
  next =>
    rw [cancel_withDocuments]
    have hsweeper : ((c.cancel .shutdown).withDocuments s documents).sweeper = (c.cancel .shutdown).sweeper := rfl
    dsimp only
    rw [hsweeper]
    split <;> rfl
  next =>
    rw [hroute]
    split
    next => rfl
    next => exact ask_withDocuments documents hb ..

/-- The turn of a job that is at work elsewhere, if it is at work at all. -/
theorem run_withDocuments (hb : c.Busy s id) (hi : c.inside? id ≠ some s) :
    (c.withDocuments s documents).run id = (c.run id).withDocuments s documents := by
  have hjobs : (c.withDocuments s documents).jobs[id]? = c.jobs[id]? := rfl
  have hother {i : Nat} {job : Job} (hj : c.jobs[id]? = some job) (hs : job.stage.inside? = some i) : s ≠ i := by
    rintro rfl
    exact hi ((inside?_eq hj).trans hs)
  simp only [run, hjobs]
  cases hj : c.jobs[id]? with
  | none => rfl
  | some job =>
    have hcancelled : (c.withDocuments s documents).isCancelled job.token = c.isCancelled job.token := rfl
    have htime : (c.withDocuments s documents).time = c.time := rfl
    have hclock : (c.withDocuments s documents).clock = c.clock := rfl
    simp only [hcancelled, htime, hclock]
    split
    next => exact begin_withDocuments documents hb job
    next => exact sweepNext_withDocuments documents hb job _
    next store visit hstage =>
      rw [holds_withDocuments, leave_withDocuments, proceed_withDocuments]
      split
      next => rfl
      next =>
        split
        next hholds =>
          refine visitStore_withDocuments documents ?_ visit
          rintro rfl
          obtain ⟨shelf, holder, hs, hholder, hne⟩ := hb
          simp [holds, hs, hholder, hne] at hholds
        next => rfl
    next store visit due hstage =>
      have hne := hother hj (show job.stage.inside? = some store by rw [hstage]; rfl)
      split
      next =>
        split
        next => exact perform_withDocuments documents hne ..
        next => rfl
      next => rfl
    next store visit reply hstage =>
      have hne := hother hj (show job.stage.inside? = some store by rw [hstage]; rfl)
      split
      next => exact visitStore_withDocuments documents hne _
      next => rw [leave_withDocuments, proceed_withDocuments]
    next store due hstage =>
      rw [leave_withDocuments]
      split <;> rfl
    next due hstage =>
      split
      next => rfl
      next => split <;> rfl
    next other hstage =>
      have hanswer : (c.withDocuments s documents).answer? other = c.answer? other := rfl
      rw [hanswer]
      split <;> rfl
    next => rfl

theorem expire_withDocuments (c : Cache) (s : Nat) (documents : Documents) (id : JobId) :
    (c.withDocuments s documents).expire id = (c.expire id).withDocuments s documents := by
  have hstage : (c.withDocuments s documents).stage? id = c.stage? id := rfl
  have htime : (c.withDocuments s documents).time = c.time := rfl
  unfold expire
  rw [hstage, htime]
  cases (c.stage? id).bind Stage.sweeping? with
  | none => rfl
  | some found =>
    dsimp only
    rw [giveUp_withDocuments]
    split <;> rfl

/-! ### Until the end of the call -/

/-- A call to the store is under way: nobody waits for it any more, or its job has not had its next turn. -/
inductive UnderWay (c : Cache) (s : Nat) : Prop
  | left (h : c.Deserted s)
  | made {id visit reply} (hs : c.stage? id = some (.returned s visit reply)) (hy : c.yielded id = true)

/-- The event is the end of the call that is under way. -/
def EndsCall (c : Cache) (s : Nat) : Event → Prop
  | .run id => ∃ visit reply, c.stage? id = some (.returned s visit reply)
  | .complete store => store = s ∧ c.Deserted s
  | _ => False

variable {event : Event} {visit : Visit} {reply : Reply}

/-- The end of the time for a mount leaves a call behind that is under way, or is none for its job. -/
private theorem expire_made (hs : c.stage? id = some (.returned s visit reply)) (hy : c.yielded id = true) :
    c.Deserts s (.expire id) ∨ c.expire id = c := by
  obtain ⟨job, hj, hstage⟩ := Option.map_eq_some_iff.1 hs
  cases hk : job.stage.sweeping? with
  | none =>
    right
    simp only [expire, stage?_eq hj, Option.bind_some, hk]
  | some pair =>
    obtain ⟨store, cycle⟩ := pair
    have hclaim := Stage.claim?_of_sweeping? hk
    rw [hstage] at hclaim
    obtain rfl : s = store := Option.some.inj hclaim
    by_cases hd : cycle.deadline ≤ c.time
    · exact .inl ⟨id, job, cycle, rfl, hj, hk, hd, hy⟩
    · right
      simp only [expire, stage?_eq hj, Option.bind_some, hk, if_neg hd]

namespace LocksSound

private theorem yielded_step (h : c.LocksSound) (hs : c.stage? id = some (.returned s visit reply))
    (hs' : (c.step event).stage? id = some (.returned s visit reply)) (hy : c.yielded id = true) :
    (c.step event).yielded id = true := by
  simp only [yielded, hs] at hy
  simp only [yielded, hs']
  cases hshelf : c.shelves[s]? with
  | none => simp [hshelf] at hy
  | some shelf =>
    obtain ⟨shelf', hshelf', hwears⟩ := h.wears_step hshelf event
    have hkind := hwears.bare
    simp only [hshelf, hshelf', Option.map_some, Option.getD_some] at hy ⊢
    cases hstore : shelf.store with
    | document =>
      rw [hstore] at hkind
      cases hstore' : shelf'.store with
      | document => rfl
      | _ => rw [hstore'] at hkind; cases hkind
    | _ => rw [hstore] at hy; cases hy

/-- A call stays under way until its end. -/
theorem underWay_step (h : c.LocksSound) (hu : c.UnderWay s) (he : ¬c.EndsCall s event) :
    (c.step event).UnderWay s := by
  cases hu with
  | left hd =>
    refine .left ((h.deserted_step_iff event).2 (.inl ⟨hd, ?_⟩))
    rintro rfl
    exact he ⟨rfl, hd⟩
  | @made id visit reply hs hy =>
    by_cases hm : event.Moves id
    · cases event with
      | run j =>
        obtain rfl : j = id := hm
        exact absurd ⟨visit, reply, hs⟩ he
      | expire j =>
        obtain rfl : j = id := hm
        rcases expire_made hs hy with hdeserts | hsame
        · exact .left ((h.deserted_step_iff _).2 (.inr hdeserts))
        · rw [Cache.step, hsame]
          exact .made hs hy
      | _ => exact hm.elim
    · obtain ⟨job, hj, hstage⟩ := Option.map_eq_some_iff.1 hs
      have hs' : (c.step event).stage? id = some (.returned s visit reply) := by
        rw [stage?_eq (h.job_same hj hm), hstage]
      exact .made hs' (h.yielded_step hs hs' hy)

/-- A turn that does not end the call belongs to a job that does not get at the store. -/
private theorem busy_of_underWay (h : c.LocksSound) (hu : c.UnderWay s) (he : ¬c.EndsCall s (.run id)) :
    c.Busy s id ∧ c.inside? id ≠ some s := by
  have hother {shelf : Shelf} {holder : Holder} (hs : c.shelves[s]? = some shelf)
      (hholder : shelf.lock.holder = some holder) (hne : holder ≠ .job id) :
      c.Busy s id ∧ c.inside? id ≠ some s := by
    refine ⟨⟨shelf, holder, hs, hholder, hne⟩, fun hi => hne ?_⟩
    exact Option.some.inj (hholder.symm.trans (h.holder_of_inside hi hs))
  cases hu with
  | left hd =>
    obtain ⟨shelf, hs, hwork⟩ := hd
    exact hother hs hwork (by simp)
  | @made owner visit reply hs =>
    have hinside : c.inside? owner = some s := by simp [inside?, hs, Stage.inside?]
    obtain ⟨shelf, hshelf, hholder⟩ := h.inside owner s hinside
    refine hother hshelf hholder fun heq => he ?_
    cases heq
    exact ⟨visit, reply, hs⟩

/-- An event that does not end the call neither reads nor changes the documents of its store. -/
theorem step_withDocuments (h : c.LocksSound) (hu : c.UnderWay s) (he : ¬c.EndsCall s event)
    (documents : Documents) :
    (c.withDocuments s documents).step event = (c.step event).withDocuments s documents := by
  cases event with
  | run id =>
    obtain ⟨hbusy, hinside⟩ := h.busy_of_underWay hu he
    exact run_withDocuments documents hbusy hinside
  | expire id => exact expire_withDocuments ..
  | complete store => exact setLock_withDocuments ..
  | cancel token => exact cancel_withDocuments ..
  | _ => rfl

end LocksSound

/-- The call to the store does not come to its end. -/
def Lasts (c : Cache) (s : Nat) (events : List Event) : Prop :=
  ∀ before event after, events = before ++ event :: after → ¬(c.steps before).EndsCall s event

theorem LocksSound.steps_withDocuments (h : c.LocksSound) (hu : c.UnderWay s) {events : List Event}
    (hl : c.Lasts s events) (documents : Documents) :
    (c.withDocuments s documents).steps events = (c.steps events).withDocuments s documents := by
  induction events generalizing c with
  | nil => rfl
  | cons event events ih =>
    have he : ¬c.EndsCall s event := hl [] event events rfl
    have hlater : (c.step event).Lasts s events := fun before event' after heq =>
      hl (event :: before) event' after (by rw [heq, List.cons_append])
    show ((c.withDocuments s documents).step event).steps events = _
    rw [h.step_withDocuments hu he documents]
    exact ih (h.step event) (h.underWay_step hu he) hlater

theorem withDocuments_self {shelf : Shelf} (hs : c.shelves[s]? = some shelf)
    (hd : shelf.store.withDocuments documents = shelf.store) : c.withDocuments s documents = c := by
  refine congrArg (fun shelves => { c with shelves : Cache }) (List.ext_getElem? fun j => ?_)
  rw [List.getElem?_modify]
  by_cases hj : s = j
  · subst hj
    simp [hs, Shelf.withDocuments, hd]
  · simp [hj]

theorem withDocuments_withDocuments (c : Cache) (s : Nat) (earlier documents : Documents) :
    (c.withDocuments s earlier).withDocuments s documents = c.withDocuments s documents := by
  have hshelf : Shelf.withDocuments documents ∘ Shelf.withDocuments earlier = Shelf.withDocuments documents := by
    funext shelf
    simp [Shelf.withDocuments]
  simp only [withDocuments, List.modify_modify_eq, hshelf]

/-- As long as the call is under way, the store may as well keep the documents that it had before: if its documents
become what they are only at the end of the call, the run is the same. -/
theorem LocksSound.late_effect (h : c.LocksSound) (hu : c.UnderWay s) {events : List Event} (hl : c.Lasts s events)
    {shelf : Shelf} (hs : c.shelves[s]? = some shelf) {file : Place} {collection : String} {opened : Database}
    {documents : Documents} (hd : shelf.store = .document file collection opened documents) (earlier : Documents) :
    ((c.withDocuments s earlier).steps events).withDocuments s documents = c.steps events := by
  have hself : c.withDocuments s documents = c := withDocuments_self documents hs (by rw [hd]; rfl)
  calc ((c.withDocuments s earlier).steps events).withDocuments s documents
      = ((c.steps events).withDocuments s earlier).withDocuments s documents := by
        rw [h.steps_withDocuments hu hl]
    _ = (c.steps events).withDocuments s documents := withDocuments_withDocuments ..
    _ = (c.withDocuments s documents).steps events := (h.steps_withDocuments hu hl documents).symm
    _ = c.steps events := by rw [hself]

end Cache

end RoutedCache

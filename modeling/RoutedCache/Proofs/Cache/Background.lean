import RoutedCache.Proofs.Cache.Doomed
import RoutedCache.Proofs.Cache.Touch
import RoutedCache.Proofs.Cache.Turns

/-!
# Jobs in the background

A hold, the sweeper and a shutdown go on by themselves while nobody waits for an answer.  Where they can stand
(`Background`) shows what they can do to the files of a cache: only the sweeper changes one, and only by a
deletion that follows on a call in the same store (`Background.returned_done`).  So the files stay as they are
in the first turn of a sweeper (`Cache.Sound.files_turnFrom`) and, once all calls are over, through the
shutdown of the cache, which cancels the sweeper before it waits for it (`Cache.files_shutdown`).
-/

namespace RoutedCache

/-- A job that nobody waits for. -/
def Request.Background : Request → Prop
  | .hold .. | .sweeper | .shutdown => True
  | _ => False

instance : DecidablePred Request.Background
  | .hold .. | .sweeper | .shutdown => isTrue trivial
  | .write .. | .read _ | .delete _ | .sweep | .calls .. => isFalse id

/-- The stage of a job that is over. -/
def Stage.IsOver : Stage → Prop
  | .finished _ => True
  | _ => False

instance : DecidablePred Stage.IsOver
  | .finished _ => isTrue trivial
  | .ready | .between _ | .queued .. | .pausing .. | .returned .. | .holding .. | .idle _ | .awaiting _ =>
      isFalse id

theorem Stage.IsOver.eq_finished {stage : Stage} (h : stage.IsOver) : ∃ answer, stage = .finished answer := by
  cases stage with
  | finished answer => exact ⟨answer, rfl⟩
  | _ => exact h.elim

/-- The job is over, or nobody waits for it; a sweeper is one that the shutdown stops. -/
def Job.Unattended (job : Job) : Prop :=
  job.stage.IsOver ∨ job.request.Background ∧ (job.request = .sweeper → job.token = .shutdown)

instance : DecidablePred Job.Unattended := fun job =>
  inferInstanceAs (Decidable (job.stage.IsOver ∨ job.request.Background ∧
    (job.request = .sweeper → job.token = .shutdown)))

/-- What a sweep does in a store. -/
def Visit.Sweeping : Visit → Prop
  | list .. | evict .. => True
  | _ => False

/-- Where a job in the background can stand.  It does not pause in a store with a file, for such a store is
not slow. -/
inductive Background (stores : List Store) : Request → Stage → Prop
  | ready {request} : Background stores request .ready
  | ended {request answer} : Background stores request (.finished answer)
  | awaiting {other} : Background stores .shutdown (.awaiting other)
  | idle {due} : Background stores .sweeper (.idle due)
  | between {cycle} : Background stores .sweeper (.between cycle)
  | queued {s path cycle} : Background stores .sweeper (.queued s (.list path cycle))
  | pausing {s visit due} (hv : visit.Sweeping) (hs : stores[s]?.bind Store.file? = none) :
      Background stores .sweeper (.pausing s visit due)
  | returned {s visit reply} (hv : visit.Sweeping) : Background stores .sweeper (.returned s visit reply)
  | waiting {s ms} : Background stores (.hold s ms) (.queued s (.hold ms))
  | holding {s ms due} : Background stores (.hold s ms) (.holding s due)

variable {c : Cache} {id : JobId} {job : Job} {event : Event}

theorem Store.file?_of_delay {store : Store} {call : StoreCall} (h : store.delay call ≠ 0) :
    store.file? = none := by
  cases store with
  | faulty => rfl
  | _ => exact absurd rfl h

theorem Store.file?_of_bare {store store' : Store} (h : store'.bare = store.bare) (hn : store.file? = none) :
    store'.file? = none := by
  have heq := file?_bare store'
  rw [h, file?_bare, hn] at heq
  exact Option.map_eq_none_iff.1 heq.symm

/-- A sweep that stays in a store deletes a record there, and it has not been cancelled. -/
private theorem sweepOn_stay {path : String} {now : Instant} {cancelled : Bool} {report : SweepReport}
    {rest : List KeyRecord} {cycle : SweepCycle} {visit : Visit}
    (h : Visit.sweepOn path now cancelled report rest cycle = .stay visit) :
    visit.Sweeping ∧ cancelled = false := by
  unfold Visit.sweepOn at h
  split at h
  next => cases h
  next hnext =>
    cases h
    refine ⟨trivial, ?_⟩
    cases cancelled with
    | false => rfl
    | true =>
      obtain ⟨report', hcancelled⟩ := MountSweep.next_cancelled path now report rest
      rw [hcancelled] at hnext
      cases hnext

namespace Background

/-- Of the stores only what they are matters. -/
theorem of_bare {stores stores' : List Store} {request : Request} {stage : Stage}
    (h : Background stores request stage) (hb : stores'.map Store.bare = stores.map Store.bare) :
    Background stores' request stage := by
  cases h with
  | @pausing s _ _ hv hs =>
    refine .pausing hv ?_
    have hget := congrArg (·[s]?) hb
    simp only [List.getElem?_map] at hget
    cases hs' : stores'[s]? with
    | none => rfl
    | some store' =>
      rw [hs', Option.map_some] at hget
      obtain ⟨store, hstore, hbare⟩ := Option.map_eq_some_iff.1 hget.symm
      rw [hstore] at hs
      exact Store.file?_of_bare hbare.symm hs
  | ready => exact .ready
  | ended => exact .ended
  | awaiting => exact .awaiting
  | idle => exact .idle
  | between => exact .between
  | queued => exact .queued
  | returned hv => exact .returned hv
  | waiting => exact .waiting
  | holding => exact .holding

private theorem visits {s : Nat} {visit : Visit} {shelf shelf' : Shelf} {new : Stage} (hv : visit.Sweeping)
    (h : Visits c id s shelf visit new shelf') (hs : c.stores[s]? = some shelf.store) :
    Background c.stores .sweeper new := by
  cases h with
  | hold => exact hv.elim
  | pause _ hd =>
    refine .pausing hv ?_
    rw [hs]
    -- A job pauses where the store is slow, and such a store has no file.
    exact Store.file?_of_delay hd
  | call => exact .returned hv
  | done => exact hv.elim

private theorem visits_hold {s ms : Nat} {shelf shelf' : Shelf} {new : Stage}
    (h : Visits c id s shelf (.hold ms) new shelf') : Background c.stores (.hold s ms) new := by
  cases h with
  | hold => exact .holding
  | pause hc => cases hc
  | call hc => cases hc

/-- What a job in the background asks for: the sweeper lists, a hold holds. -/
private theorem wants {old : Stage} {s : Nat} {visit : Visit} (h : Background c.stores job.request old)
    (hr : job.request.Background) (hw : Wants c job old s visit) :
    job.request = .sweeper ∧ (∃ path cycle, visit = .list path cycle) ∨
      ∃ ms, job.request = .hold s ms ∧ visit = .hold ms := by
  cases hw with
  | mount =>
    generalize job.request = request at h
    cases h
    exact .inl ⟨rfl, _, _, rfl⟩
  | call hroute =>
    generalize job.request = request at hr hroute
    cases request with
    | hold => cases hroute; exact .inr ⟨_, rfl, rfl⟩
    | sweeper => cases hroute
    | shutdown => cases hroute
    | _ => exact hr.elim

private theorem next {visit visit' : Visit} {clock : Clock} {cancelled : Bool} {reply : Reply}
    (hv : visit.Sweeping) (h : visit.next clock cancelled reply = .stay visit') :
    visit'.Sweeping ∧ cancelled = false := by
  cases visit with
  | list path cycle =>
    cases reply with
    | listed entries =>
      simp only [Visit.next, Visit.listOn] at h
      split at h
      next => cases h
      next => exact sweepOn_stay h
    | _ => cases h
  | evict => exact sweepOn_stay h
  | _ => exact hv.elim

/-- A job that fails on its way to a store is over, or the sweep goes on without the mount. -/
private theorem fail {old : Stage} {s : Nat} {visit : Visit} (h : Background c.stores job.request old)
    (hr : job.request.Background) (hw : Wants c job old s visit) (error : CacheError) :
    Background c.stores job.request (visit.fail error).stage := by
  rcases wants h hr hw with ⟨hsweeper, path, cycle, rfl⟩ | ⟨ms, -, rfl⟩
  · rw [hsweeper]
    exact .between
  · exact .ended

private theorem aside {old new : Stage} (h : Background c.stores job.request old)
    (hr : job.request.Background)
    (ha : Aside c job old new) : Background c.stores job.request new := by
  cases ha with
  | answer => exact .ended
  | sweep heq => rw [heq] at hr; exact hr.elim
  | sweeper heq => rw [heq]; exact .idle
  | shutdown => exact .ended
  | await heq => rw [heq]; exact .awaiting
  | swept => exact .ended
  | pause _ heq => rw [heq]; exact .idle
  | stop => exact .ended
  | wake =>
    generalize job.request = request at h
    cases h
    exact .between
  | joined => exact .ended

private theorem leave {old : Stage} {turn : Visit.Turn} (h : Background c.stores job.request old)
    (hl : Leaves c job old turn) : Background c.stores job.request turn.stage := by
  cases turn with
  | answer => exact .ended
  | stay => exact .ready
  | move cycle =>
    generalize job.request = request at h
    cases h with
    | queued => exact .between
    | returned => exact .between
    | waiting => nomatch hl
    | _ => cases hl

/-- A turn takes a job in the background to where such a job can stand. -/
theorem step {old new : Stage} {shelves : List Shelf} (h : Background c.stores job.request old)
    (hr : job.request.Background) (ht : Transition c id job old new shelves) :
    Background c.stores job.request new := by
  have hlist (path : String) (cycle : SweepCycle) : (Visit.list path cycle).Sweeping := trivial
  cases ht with
  | aside ha => exact h.aside hr ha
  | refuse hw => exact h.fail hr hw _
  | cancel hw => exact h.fail hr hw _
  | queue hw =>
    rcases wants h hr hw with ⟨hsweeper, path, cycle, rfl⟩ | ⟨ms, hhold, rfl⟩
    · rw [hsweeper]
      exact .queued
    · rw [hhold]
      exact .waiting
  | enter hw hs _ _ _ hv =>
    rcases wants h hr hw with ⟨hsweeper, path, cycle, rfl⟩ | ⟨ms, hhold, rfl⟩
    · rw [hsweeper]
      have hs := Cache.store_of_shelf hs
      exact visits (hlist path cycle) hv hs
    · rw [hhold]
      exact visits_hold hv
  | grant hs _ _ hv =>
    generalize job.request = request at h
    cases h with
    | queued => exact visits (hlist _ _) hv (Cache.store_of_shelf hs)
    | waiting => exact visits_hold hv
  | call hs _ _ =>
    generalize job.request = request at h
    cases h with
    | pausing hsweeping => exact .returned hsweeping
  | stay hs hnext hv =>
    generalize job.request = request at h
    cases h with
    | returned hsweeping => exact visits (next hsweeping hnext).1 hv (Cache.store_of_shelf hs)
  | leave _ _ hl => exact h.leave hl

/-- The end of the time for a mount takes the sweeper to the next mount. -/
theorem expiry {old new : Stage} {shelves : List Shelf} (h : Background c.stores job.request old)
    (he : Expiry c id old new shelves) : Background c.stores job.request new := by
  cases he with
  | skip hk =>
    generalize job.request = request at h
    cases h with
    | queued => exact .between
    | pausing => exact .between
    | returned => exact .between
    | _ => cases hk

private theorem not_done_of_list {s : Nat} {path : String} {cycle : SweepCycle} {shelf shelf' : Shelf}
    {new : Stage} (hv : Visits c id s shelf (.list path cycle) new shelf') (s' : Nat) (visit : Visit) :
    new ≠ .returned s' visit .done := by
  cases hv with
  | call hc =>
    cases hc
    intro hnew
    exact Store.perform_list_ne_done _ _ (Shelf.perform_done (Stage.returned.inj hnew).2.2).1
  | _ => nofun

private theorem not_done_of_hold {s ms : Nat} {shelf shelf' : Shelf} {new : Stage}
    (hv : Visits c id s shelf (.hold ms) new shelf') (s' : Nat) (visit : Visit) :
    new ≠ .returned s' visit .done := by
  cases hv with
  | hold => nofun
  | pause hc => cases hc
  | call hc => cases hc

/-- An acknowledgement to a job in the background comes from a store without a file, or it is the reply to a
deletion of a sweeper that was at work in the store and has not been cancelled. -/
theorem returned_done {old new : Stage} {s : Nat} {visit : Visit} {shelves : List Shelf}
    (h : Background c.stores job.request old) (hr : job.request.Background)
    (ht : Transition c id job old new shelves) (hnew : new = .returned s visit .done) :
    c.stores[s]?.bind Store.file? = none ∨
      old.inside? = some s ∧ job.request = .sweeper ∧ c.isCancelled job.token = false := by
  have hasked {s' : Nat} {visit' : Visit} {shelf shelf' : Shelf} (hw : Wants c job old s' visit')
      (hv : Visits c id s' shelf visit' new shelf') : False := by
    rcases wants h hr hw with ⟨-, path, cycle, rfl⟩ | ⟨ms, -, rfl⟩
    · exact not_done_of_list hv s visit hnew
    · exact not_done_of_hold hv s visit hnew
  cases ht with
  | aside ha => subst hnew; cases ha
  | @refuse _ _ visit' => cases visit' <;> cases hnew
  | @cancel _ _ visit' => cases visit' <;> cases hnew
  | queue => cases hnew
  | enter hw _ _ _ _ hv => exact (hasked hw hv).elim
  | grant _ _ _ hv =>
    generalize job.request = request at h
    cases h with
    | queued => exact absurd hnew (not_done_of_list hv s visit)
    | waiting => exact absurd hnew (not_done_of_hold hv s visit)
  | call =>
    obtain ⟨rfl, -⟩ := Stage.returned.inj hnew
    generalize job.request = request at h
    cases h with
    | pausing _ hs => exact .inl hs
  | stay _ hnext hv =>
    have hplace := congrArg Stage.inside? hnew
    generalize job.request = request at h
    cases h with
    | returned hsweeping =>
      refine .inr ⟨?_, rfl, (next hsweeping hnext).2⟩
      cases hv with
      | done => cases hnew
      | _ => exact hplace
  | @leave _ _ _ turn => cases turn <;> cases hnew

end Background

/-- A transition leaves the files of the stores as they are unless it is a call that a store with a file has
acknowledged. -/
theorem Transition.files {old new : Stage} {shelves : List Shelf} (ht : Transition c id job old new shelves)
    (h : ∀ s visit, new = .returned s visit .done → c.stores[s]?.bind Store.file? = none) :
    (storesOn shelves).map Store.file? = c.stores.map Store.file? := by
  have htouches := ht.touches
  generalize new = new at htouches h
  cases htouches with
  | rest heq => rw [heq]
  | @call s visit call store _ hs _ heq =>
    have hnone := h s visit rfl
    rw [hs] at hnone
    have hafter := Store.file?_of_bare (Store.bare_perform store call) hnone
    rw [heq, List.map_set, hafter]
    refine List.ext_getElem? fun i => ?_
    rw [List.getElem?_set]
    split
    next hi =>
      obtain rfl := hi
      obtain ⟨hlt, -⟩ := List.getElem?_eq_some_iff.1 hs
      rw [List.getElem?_map, hs, Option.map_some, show store.file? = none from hnone]
      simpa using hlt
    next => rfl

/-- Nothing happens any more to a job that is over. -/
theorem Transition.not_over {answer : Answer} {new : Stage} {shelves : List Shelf}
    (ht : Transition c id job (.finished answer) new shelves) : False := by
  cases ht with
  | aside ha => cases ha
  | refuse hw => cases hw
  | cancel hw => cases hw
  | queue hw => cases hw
  | enter hw => cases hw
  | leave hk => cases hk

namespace Cache

/-- Locks are sound, and the jobs in the background stand where such jobs can stand. -/
structure Sound (c : Cache) : Prop where
  locks : c.LocksSound
  background : ∀ (id : JobId) (job : Job), c.jobs[id]? = some job → job.request.Background →
    RoutedCache.Background c.stores job.request job.stage

/-- All jobs are over but for those in the background. -/
def Settled (c : Cache) : Prop := ∀ job ∈ c.jobs, job.Unattended

instance (c : Cache) : Decidable c.Settled := inferInstanceAs (Decidable (∀ job ∈ c.jobs, job.Unattended))

/-- The places and databases of the stores that have a file. -/
def files (c : Cache) : List (Option (Place × Database)) := c.stores.map Store.file?

namespace Sound

theorem step (h : c.Sound) (event : Event) : (c.step event).Sound := by
  refine ⟨h.locks.step event, fun id job hj hr => ?_⟩
  have hbare := h.locks.bare_step event
  have heffect := h.locks.effect event
  generalize c.step event = c' at hj hbare heffect ⊢
  cases heffect with
  | start =>
    rcases List.mem_append.1 (List.mem_of_getElem? hj) with hold | hnew
    · obtain ⟨i, hi⟩ := List.mem_iff_getElem?.1 hold
      exact h.background i job hi hr
    · rw [List.mem_singleton.1 hnew]
      exact .ready
  | complete => exact (h.background id job hj hr).of_bare hbare
  | aside => exact h.background id job hj hr
  | turn _ hj' ht =>
    rw [getElem?_settle hj'] at hj
    split at hj
    next =>
      cases hj
      exact ((h.background _ _ hj' hr).step hr ht).of_bare hbare
    next => exact (h.background _ _ hj hr).of_bare hbare
  | @skip id' job' next shelves _ hj' he =>
    replace hj : (if id = id' then some { job' with stage := next } else c.jobs[id]?) = some job :=
      (getElem?_settle hj' shelves c.cancelled c.sweeper job'.stage next id).symm.trans hj
    split at hj
    next =>
      cases hj
      exact ((h.background _ _ hj' hr).expiry he).of_bare hbare
    next => exact (h.background _ _ hj hr).of_bare hbare

theorem steps (h : c.Sound) (events : List Event) : (c.steps events).Sound := by
  induction events generalizing c with
  | nil => exact h
  | cons event events ih => exact ih (h.step event)

end Sound

theorem Settled.step (hs : c.Settled) (h : c.LocksSound) (event : Event) (hstart : ¬event.Starts) :
    (c.step event).Settled := by
  intro job hm
  obtain ⟨id, hj⟩ := List.mem_iff_getElem?.1 hm
  cases hold : c.jobs[id]? with
  | none =>
    obtain ⟨rfl, -⟩ := h.job_new hold hj
    exact absurd trivial hstart
  | some job' =>
    rcases hs job' (List.mem_of_getElem? hold) with hover | hbackground
    · obtain ⟨answer, hfinished⟩ := hover.eq_finished
      rw [h.over_step hold hfinished event] at hj
      cases hj
      exact .inl hover
    · obtain ⟨stage, hstage⟩ := h.job_step hold event
      rw [hstage] at hj
      cases hj
      exact .inr hbackground

theorem Settled.drifts {c' : Cache} (hs : c.Settled) (h : c.LocksSound) (hd : c.Drifts c') : c'.Settled := by
  obtain ⟨events, hstart, rfl⟩ := hd
  induction events generalizing c with
  | nil => exact hs
  | cons event events ih =>
    exact ih (hs.step h event (hstart event (List.mem_cons_self ..))) (h.step event)
      fun e he => hstart e (List.mem_cons_of_mem _ he)

/-- A cache that is about to end: there is no call left to answer, and the sweeper is cancelled. -/
structure Closing (c : Cache) : Prop where
  sound : c.Sound
  settled : c.Settled
  cancelled : c.isCancelled .shutdown = true

private theorem files_skip {old new : Stage} {shelves : List Shelf} (he : Expiry c id old new shelves) :
    (storesOn shelves).map Store.file? = c.files := by
  cases he with
  | skip _ _ hs => exact congrArg (List.map Store.file?) (storesOn_set hs rfl)

namespace Closing

theorem step (h : c.Closing) (hstart : ¬event.Starts) : (c.step event).Closing :=
  ⟨h.sound.step event, h.settled.step h.sound.locks event hstart,
    h.sound.locks.cancelled_step h.cancelled event⟩

/-- A cache that is about to end keeps its files as they are. -/
theorem files_step (h : c.Closing) (hstart : ¬event.Starts) : (c.step event).files = c.files := by
  have heffect := h.sound.locks.effect event
  generalize c.step event = c' at heffect ⊢
  cases heffect with
  | start hevent => rw [hevent] at hstart; exact absurd trivial hstart
  | aside => rfl
  | skip _ _ he => exact files_skip he
  | complete _ hs => exact congrArg (List.map Store.file?) (storesOn_set hs rfl)
  | @turn id job _ _ _ _ _ hj ht =>
    refine ht.files fun s visit hnew => ?_
    rcases h.settled job (List.mem_of_getElem? hj) with hover | ⟨hr, htoken⟩
    · obtain ⟨answer, hfinished⟩ := hover.eq_finished
      rw [hfinished] at ht
      exact ht.not_over.elim
    · refine ((h.sound.background id job hj hr).returned_done hr ht hnew).resolve_right ?_
      rintro ⟨-, hsweeper, hc⟩
      rw [htoken hsweeper, h.cancelled] at hc
      cases hc

theorem files_drifts (h : c.Closing) {c' : Cache} (hd : c.Drifts c') : c'.files = c.files := by
  obtain ⟨events, hstart, rfl⟩ := hd
  induction events generalizing c with
  | nil => rfl
  | cons event events ih =>
    have hfirst := hstart event (List.mem_cons_self ..)
    exact (ih (h.step hfirst) fun e he => hstart e (List.mem_cons_of_mem _ he)).trans (h.files_step hfirst)

end Closing

/-! ### The end of a cache -/

/-- A shutdown cancels the sweeper in its first run, and no store is asked for anything. -/
private theorem run_shutdown (hj : c.jobs[id]? = some { request := .shutdown }) :
    (c.run id).shelves = c.shelves ∧ (c.run id).isCancelled .shutdown = true := by
  have hcancelled (sweeper : Option JobId) (jobs : List Job) (counters : Counters) :
      ({ c.cancel .shutdown with sweeper, jobs, counters } : Cache).isCancelled .shutdown = true := by
    simp [isCancelled, cancel]
  simp only [run, hj, begin]
  split
  · exact ⟨rfl, hcancelled ..⟩
  · exact ⟨rfl, hcancelled ..⟩

/-- The shutdown of a cache without open calls leaves its files as they are, wherever the sweeper stands. -/
theorem files_shutdown {s : Schedule} (h : s.cache.Sound) (hs : s.cache.Settled) :
    (s.call .shutdown .never).1.cache.files = s.cache.files := by
  obtain ⟨c, order, alarms, answered⟩ := s
  have hj : (c.step (.start .shutdown .never)).jobs[c.jobs.length]? = some { request := .shutdown } :=
    List.getElem?_concat_length ..
  have hsettled : (c.step (.start .shutdown .never)).Settled := by
    intro job hm
    rcases List.mem_append.1 hm with hold | hnew
    · exact hs job hold
    · rw [List.mem_singleton.1 hnew]
      exact .inr ⟨trivial, nofun⟩
  obtain ⟨hshelves, hcancelled⟩ := run_shutdown hj
  have hsound := h.step (.start .shutdown .never)
  have hclosing : ((c.step (.start .shutdown .never)).run c.jobs.length).Closing :=
    ⟨hsound.step (.run _), hsettled.step hsound.locks (.run _) fun hrun => hrun, hcancelled⟩
  have hready : (c.step (.start .shutdown .never)).ready c.jobs.length = true := by
    simp only [ready, hj]
  have hturn := Schedule.drifts_turn_ready
    (s := ⟨c.step (.start .shutdown .never), order ++ [c.jobs.length], alarms, answered⟩) hready
  have hdrifts := hturn.trans (Schedule.drifts_driveUntil _ fun c' => (c'.answer? c.jobs.length).isSome)
  refine (hclosing.files_drifts hdrifts).trans ?_
  show (storesOn _).map Store.file? = _
  rw [hshelves]
  rfl

/-! ### The first turn of a sweeper -/

/-- A sweeper in a store with a file has just made a call there, for such a store is not slow. -/
private theorem Sound.outside_or_yielded (h : c.Sound) (hj : c.jobs[id]? = some job)
    (hr : job.request = .sweeper) :
    (∀ s, job.stage.inside? = some s → c.stores[s]?.bind Store.file? = none) ∨ c.yielded id = true := by
  have hstands := h.background id job hj (by rw [hr]; trivial)
  rw [hr] at hstands
  have hstage := stage?_eq hj
  generalize job.stage = stage at hstands hstage
  cases hstands with
  | pausing _ hs =>
    left
    intro s hin
    cases hin
    exact hs
  | @returned s visit reply =>
    cases hfile : c.stores[s]?.bind Store.file? with
    | none =>
      left
      intro s' hin
      cases hin
      exact hfile
    | some file =>
      right
      obtain ⟨store, hs, hstore⟩ := Option.bind_eq_some_iff.1 hfile
      rw [getElem?_stores] at hs
      obtain ⟨shelf, hshelf, rfl⟩ := Option.map_eq_some_iff.1 hs
      simp only [yielded, hstage, hshelf, Option.map_some, Option.getD_some]
      cases hkind : shelf.store with
      | document => rfl
      | _ => rw [hkind] at hstore; cases hstore
  | _ =>
    left
    intro s hin
    cases hin

private theorem Sound.files_run (h : c.Sound) (hj : c.jobs[id]? = some job) (hr : job.request = .sweeper)
    (ho : ∀ s, job.stage.inside? = some s → c.stores[s]?.bind Store.file? = none) :
    (c.step (.run id)).files = c.files := by
  have hbackground : job.request.Background := by rw [hr]; trivial
  cases h.locks.moved hj (show (Event.run id).Moves id from rfl) with
  | same heq => exact congrArg files heq
  | skip he => cases he
  | turn _ ht hstores =>
    refine (congrArg (List.map Store.file?) hstores).trans (ht.files fun s visit hnew => ?_)
    exact ((h.background id job hj hbackground).returned_done hbackground ht hnew).elim (fun hnone => hnone)
      fun hinside => ho s hinside.1

/-- The end of the time for a mount takes a sweeper out of the store. -/
private theorem Sound.expire_late (h : c.Sound) (hj : c.jobs[id]? = some job) (hlate : c.late id = true) :
    (c.step (.expire id)).files = c.files ∧ ∃ stage : Stage, stage.inside? = none ∧
      (c.step (.expire id)).jobs[id]? = some { job with stage } := by
  cases hk : job.stage.sweeping? with
  | none => simp [late, stage?_eq hj, hk] at hlate
  | some found =>
    obtain ⟨s, cycle⟩ := found
    have hd : cycle.deadline ≤ c.time := by simpa [late, stage?_eq hj, hk] using hlate
    have hexpire : c.step (.expire id) = (c.giveUp s id).setStage id (.between cycle.skip) := by
      simp [Cache.step, expire, stage?_eq hj, hk, hd]
    refine ⟨?_, .between cycle.skip, rfl, ?_⟩
    · cases h.locks.moved hj (show (Event.expire id).Moves id from rfl) with
      | same heq => exact congrArg files heq
      | turn he => cases he
      | skip _ _ hstores => exact congrArg (List.map Store.file?) hstores
    · rw [hexpire, setStage, jobs_giveUp, List.getElem?_modify, hj]
      simp

/-- A sweeper that is not in a store with a file leaves the files as they are for the rest of its turn. -/
theorem Sound.files_turnFrom (h : c.Sound) (hj : c.jobs[id]? = some job) (hr : job.request = .sweeper)
    (ho : ∀ s, job.stage.inside? = some s → c.stores[s]?.bind Store.file? = none) (fuel : Nat) :
    (Schedule.turnFrom fuel id c).files = c.files := by
  induction fuel generalizing c job with
  | zero => rfl
  | succ fuel ih =>
    -- After a run, if there is one, the sweeper is still a sweeper and the files are as they were.
    have hrun : (if c.ready id then c.step (.run id) else c).Sound ∧
        (if c.ready id then c.step (.run id) else c).files = c.files ∧
          ∃ stage, (if c.ready id then c.step (.run id) else c).jobs[id]? = some { job with stage } := by
      split
      · exact ⟨h.step _, h.files_run hj hr ho, h.locks.job_step hj _⟩
      · exact ⟨h, rfl, job.stage, hj⟩
    unfold Schedule.turnFrom
    generalize (if c.ready id then c.step (.run id) else c) = c' at hrun
    obtain ⟨hsound, hfiles, stage, hj'⟩ := hrun
    dsimp only
    split
    next hgo =>
      have hyielded : c'.yielded id ≠ true := by simp_all
      exact (ih hsound hj' hr ((hsound.outside_or_yielded hj' hr).resolve_right hyielded)).trans hfiles
    next =>
      split
      next hlate =>
        obtain ⟨hsame, stage', hinside, hj''⟩ := hsound.expire_late hj' hlate
        have hout : ∀ s, stage'.inside? = some s →
            (c'.step (.expire id)).stores[s]?.bind Store.file? = none := by
          intro s hin
          rw [hinside] at hin
          cases hin
        exact (ih (hsound.step _) hj'' hr hout).trans (hsame.trans hfiles)
      next => exact hfiles

end Cache

end RoutedCache

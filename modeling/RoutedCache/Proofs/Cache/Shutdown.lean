import RoutedCache.Proofs.Cache.Background
import RoutedCache.Proofs.Cache.Stopping
import RoutedCache.Session.State

/-!
# How a cache is shut down

The first turn of a shutdown takes the sweeper over, and this shutdown returns when the sweeper has ended; a shutdown
that comes later finds no sweeper and returns at once (`Handover`).  So a shutdown that has returned has seen the end
of the sweeper unless another one still waits for it (`Cache.shutdown_waits`).
-/

namespace RoutedCache

namespace Cache

variable {c : Cache} {id w : JobId} {job : Job} {event : Event}

/-! ### The place of the sweeper -/

@[simp] theorem sweeper_setStage (stage : Stage) : (c.setStage id stage).sweeper = c.sweeper := rfl

@[simp] theorem sweeper_finish (answer : Answer) : (c.finish id answer).sweeper = c.sweeper := rfl

@[simp] theorem sweeper_setLock (s : Nat) (f : Lock → Lock) : (c.setLock s f).sweeper = c.sweeper := rfl

@[simp] theorem sweeper_leave (s : Nat) : (c.leave s id).sweeper = c.sweeper := rfl

@[simp] theorem sweeper_cancel (token : Token) : (c.cancel token).sweeper = c.sweeper := by
  unfold cancel
  split <;> rfl

@[simp] theorem sweeper_proceed (turn : Visit.Turn) : (c.proceed id turn).sweeper = c.sweeper := by
  cases turn <;> rfl

@[simp] theorem sweeper_giveUp (s : Nat) : (c.giveUp s id).sweeper = c.sweeper := by
  unfold giveUp
  split <;> simp

@[simp] theorem sweeper_perform (s : Nat) (visit : Visit) (call : StoreCall) :
    (c.perform id s visit call).sweeper = c.sweeper := by
  unfold perform
  split
  next => rfl
  next =>
    dsimp only
    split <;> simp

@[simp] theorem sweeper_visitStore (s : Nat) (visit : Visit) : (c.visitStore id s visit).sweeper = c.sweeper := by
  unfold visitStore
  split
  next => rfl
  next => split <;> simp
  next => rfl
  next => rfl

@[simp] theorem sweeper_ask (token : Token) (s : Nat) (visit : Visit) :
    (c.ask id token s visit).sweeper = c.sweeper := by
  unfold ask
  split
  next => rfl
  next =>
    dsimp only
    split
    next => simp
    next =>
      split
      next => simp
      next => split <;> simp

@[simp] theorem sweeper_sweepNext (cycle : SweepCycle) : (c.sweepNext id job cycle).sweeper = c.sweeper := by
  unfold sweepNext
  split
  next => simp
  next => split <;> simp

theorem sweeper_begin (h : job.request ≠ .shutdown) : (c.begin id job).sweeper = c.sweeper := by
  unfold begin
  split
  next => rfl
  next => rfl
  next hr => exact absurd hr h
  next => split <;> simp

/-- Only the first turn of a shutdown takes the sweeper away. -/
theorem sweeper_step (h : ∀ id job, event = .run id → c.jobs[id]? = some job → job.request = .shutdown →
    job.stage ≠ .ready) : (c.step event).sweeper = c.sweeper := by
  cases event with
  | run id =>
    rw [step]
    unfold run
    split
    next => rfl
    next job hj =>
      split
      next hs => exact sweeper_begin fun hr => h id job rfl hj hr hs
      all_goals repeat' split
      all_goals simp
  | expire id =>
    rw [step]
    unfold expire
    repeat' split
    all_goals simp
  | cancel token => exact sweeper_cancel token
  | _ => rfl

/-! ### Shutdowns -/

/-- A job that is a shutdown and stands there. -/
def ShutdownAt (c : Cache) (id : JobId) (stage : Stage) : Prop :=
  ∃ token, c.jobs[id]? = some ⟨.shutdown, token, stage⟩

theorem ShutdownAt.unique {stage stage' : Stage} (h : c.ShutdownAt id stage) (h' : c.ShutdownAt id stage') :
    stage = stage' := by
  obtain ⟨token, hj⟩ := h
  obtain ⟨token', hj'⟩ := h'
  cases hj.symm.trans hj'
  rfl

/-- The first shutdown takes the sweeper over. -/
theorem step_shutdown_some (h : c.ShutdownAt id .ready) (hw : c.sweeper = some w) : c.step (.run id) =
    { c with cancelled := .shutdown :: c.cancelled, sweeper := none }.setStage id (.awaiting w) := by
  obtain ⟨token, hj⟩ := h
  simp only [step, run, hj, begin, cancel, reduceCtorEq, ↓reduceIte, hw]

/-- A later one has nothing to wait for. -/
theorem step_shutdown_none (h : c.ShutdownAt id .ready) (hw : c.sweeper = none) : c.step (.run id) =
    { c with cancelled := .shutdown :: c.cancelled }.setStage id (.finished .ended) := by
  obtain ⟨token, hj⟩ := h
  simp only [step, run, hj, begin, cancel, reduceCtorEq, ↓reduceIte, hw]
  rfl

theorem shutdownAt_setStage (h : c.ShutdownAt id .ready) (cancelled : List Token) (sweeper : Option JobId)
    (new : Stage) {j : JobId} {stage : Stage} :
    ({ c with cancelled, sweeper }.setStage id new).ShutdownAt j stage ↔
      if j = id then stage = new else c.ShutdownAt j stage := by
  obtain ⟨token, hj⟩ := h
  have hjobs : ({ c with cancelled, sweeper }.setStage id new).jobs[j]? = _ :=
    getElem?_settle hj c.shelves cancelled sweeper .ready new j
  unfold ShutdownAt
  rw [hjobs]
  split
  next => simp [eq_comm]
  next => rfl

namespace LocksSound

theorem answered_step (h : c.LocksSound) (ha : (c.answer? w).isSome) (event : Event) :
    ((c.step event).answer? w).isSome := by
  obtain ⟨answer, ha⟩ := Option.isSome_iff_exists.1 ha
  obtain ⟨job, hj, hs⟩ := answer?_eq_some_iff.1 ha
  exact Option.isSome_iff_exists.2 ⟨answer, answer?_eq_some_iff.2 ⟨job, h.over_step hj hs event, hs⟩⟩

theorem answered_steps (h : c.LocksSound) (ha : (c.answer? w).isSome) (events : List Event) :
    ((c.steps events).answer? w).isSome := by
  induction events generalizing c with
  | nil => exact ha
  | cons event events ih => exact ih (h.step event) (h.answered_step ha event)

end LocksSound

namespace ShutdownAt

private theorem expire_outside {stage : Stage} (h : c.ShutdownAt id stage) (hk : stage.sweeping? = none) :
    c.step (.expire id) = c := by
  obtain ⟨token, hj⟩ := h
  simp [Cache.step, expire, stage?_eq hj, hk]

/-- A shutdown begins in its own turn. -/
theorem ready_step (h : c.ShutdownAt id .ready) (hl : c.LocksSound) (hne : event ≠ .run id) :
    (c.step event).ShutdownAt id .ready := by
  by_cases hm : event.Moves id
  · cases event with
    | run j => exact absurd (congrArg Event.run hm) hne
    | expire j =>
      obtain rfl : j = id := hm
      rwa [h.expire_outside rfl]
    | _ => exact hm.elim
  · obtain ⟨token, hj⟩ := h
    exact ⟨token, hl.job_same hj hm⟩

/-- A shutdown waits until the job that it waits for has ended. -/
theorem awaiting_step (h : c.ShutdownAt id (.awaiting w)) (hl : c.LocksSound) (event : Event) :
    (c.step event).ShutdownAt id (.awaiting w) ∨
      (c.answer? w).isSome ∧ (c.step event).ShutdownAt id (.finished .ended) := by
  by_cases hm : event.Moves id
  · cases event with
    | run j =>
      obtain rfl : j = id := hm
      obtain ⟨token, hj⟩ := h
      simp only [Cache.step, run, hj]
      split
      next ha => exact .inr ⟨ha, token, by simp [finish, setStage, hj]⟩
      next => exact .inl ⟨token, hj⟩
    | expire j =>
      obtain rfl : j = id := hm
      left
      rwa [h.expire_outside rfl]
    | _ => exact hm.elim
  · obtain ⟨token, hj⟩ := h
    exact .inl ⟨token, hl.job_same hj hm⟩

theorem over_step {answer : Answer} (h : c.ShutdownAt id (.finished answer)) (hl : c.LocksSound) (event : Event) :
    (c.step event).ShutdownAt id (.finished answer) := by
  obtain ⟨token, hj⟩ := h
  exact ⟨token, hl.over_step hj rfl event⟩

/-- A shutdown after an event has just been started or was there before. -/
theorem before {stage : Stage} (hl : c.LocksSound) (h : (c.step event).ShutdownAt id stage) :
    stage = .ready ∨ ∃ old, c.ShutdownAt id old := by
  obtain ⟨token, hj⟩ := h
  cases hold : c.jobs[id]? with
  | none => exact .inl (hl.job_new hold hj).2
  | some old =>
    obtain ⟨new, hnew⟩ := hl.job_step hold event
    obtain ⟨request, token', old⟩ := old
    cases hj.symm.trans hnew
    exact .inr ⟨old, _, hold⟩

end ShutdownAt

/-- Who sees to the end of the sweeper: the cache up to the first turn of a shutdown, and then this shutdown. -/
inductive Handover (w : JobId) (c : Cache) : Prop
  | kept (hw : c.sweeper = some w) (h : ∀ id stage, c.ShutdownAt id stage → stage = .ready)
  | taken (taker : JobId) (hw : c.sweeper = none) (hc : c.isCancelled .shutdown = true)
      (ht : c.ShutdownAt taker (.awaiting w) ∨ c.ShutdownAt taker (.finished .ended) ∧ (c.answer? w).isSome)
      (h : ∀ id stage, id ≠ taker → c.ShutdownAt id stage → stage = .ready ∨ stage = .finished .ended)

namespace Handover

/-- The first turn of a shutdown. -/
private theorem begin (h : Handover w c) (hl : c.LocksSound) (hs : c.ShutdownAt id .ready) :
    Handover w (c.step (.run id)) := by
  cases h with
  | kept hw h =>
    rw [step_shutdown_some hs hw]
    refine .taken id rfl (by simp [isCancelled, setStage]) (.inl ?_) fun j stage hne hj => .inl ?_
    · rw [shutdownAt_setStage hs, if_pos rfl]
    · rw [shutdownAt_setStage hs, if_neg hne] at hj
      exact h j stage hj
  | taken taker hw hc ht h =>
    have hne : taker ≠ id := by
      rintro rfl
      rcases ht with ht | ⟨ht, -⟩ <;> cases ht.unique hs
    have hanswered (ha : (c.answer? w).isSome) := hl.answered_step ha (.run id)
    rw [step_shutdown_none hs hw] at hanswered ⊢
    refine .taken taker hw (by simp [isCancelled, setStage]) ?_ fun j stage hj hstage => ?_
    · rw [shutdownAt_setStage hs, shutdownAt_setStage hs, if_neg hne, if_neg hne]
      exact ht.imp_right (And.imp_right hanswered)
    · rw [shutdownAt_setStage hs] at hstage
      split at hstage
      next => exact .inr hstage
      next => exact h j stage hj hstage

/-- An event that is the first turn of no shutdown. -/
private theorem rest (h : Handover w c) (hl : c.LocksSound)
    (hfirst : ∀ id, event = .run id → ¬c.ShutdownAt id .ready) : Handover w (c.step event) := by
  have hsweeper := sweeper_step fun id job he hj hr hs => hfirst id he ⟨job.token, by rw [hj, ← hr, ← hs]⟩
  have hready {id : JobId} (hs : c.ShutdownAt id .ready) : (c.step event).ShutdownAt id .ready :=
    hs.ready_step hl fun he => hfirst id he hs
  cases h with
  | kept hw h =>
    refine .kept (hsweeper.trans hw) fun id stage hstage => ?_
    rcases ShutdownAt.before hl hstage with hnew | ⟨old, hold⟩
    · exact hnew
    · rw [h id old hold] at hold
      exact hstage.unique (hready hold)
  | taken taker hw hc ht h =>
    refine .taken taker (hsweeper.trans hw) (hl.cancelled_step hc event) ?_ fun id stage hne hstage => ?_
    · rcases ht with hs | ⟨hs, ha⟩
      · exact (hs.awaiting_step hl event).imp_right fun h => ⟨h.2, hl.answered_step h.1 event⟩
      · exact .inr ⟨hs.over_step hl event, hl.answered_step ha event⟩
    · rcases ShutdownAt.before hl hstage with hnew | ⟨old, hold⟩
      · exact .inl hnew
      · rcases h id old hne hold with rfl | rfl
        · exact .inl (hstage.unique (hready hold))
        · exact .inr (hstage.unique (hold.over_step hl event))

theorem step (h : Handover w c) (hl : c.LocksSound) (event : Event) : Handover w (c.step event) := by
  by_cases hfirst : ∃ id, event = .run id ∧ c.ShutdownAt id .ready
  · obtain ⟨id, rfl, hs⟩ := hfirst
    exact h.begin hl hs
  · exact h.rest hl fun id he hs => hfirst ⟨id, he, hs⟩

theorem steps (h : Handover w c) (hl : c.LocksSound) (events : List Event) : Handover w (c.steps events) := by
  induction events generalizing c with
  | nil => exact h
  | cons event events ih => exact ih (h.step hl event) (hl.step event)

end Handover

/-! ### A cache with its sweeper -/

/-- A cache as it is built: the sweeper is its only job, and all locks are free. -/
structure Built (c : Cache) : Prop where
  jobs : c.jobs = [{ request := .sweeper, token := .shutdown }]
  sweeper : c.sweeper = some 0
  free : ∀ (s : Nat) (shelf : Shelf), c.shelves[s]? = some shelf → shelf.lock = {}

theorem built_freshCache (s : Session) (setup : Setup) (mounts : MountTable Nat) :
    (s.freshCache setup mounts).Built where
  jobs := rfl
  sweeper := rfl
  free i shelf hs := by
    simp only [Session.freshCache, List.getElem?_map, Option.map_eq_some_iff] at hs
    obtain ⟨_, _, rfl⟩ := hs
    rfl

namespace Built

variable {first : Cache}

/-- Before its sweeper was started the cache was unused. -/
theorem exists_unused (h : first.Built) : ∃ c : Cache, c.Unused ∧ first = c.step (.start .sweeper .shutdown) := by
  refine ⟨{ first with jobs := [] }, ⟨rfl, h.free⟩, ?_⟩
  obtain ⟨hjobs, -, -⟩ := h
  cases first
  cases hjobs
  rfl

theorem locksSound (h : first.Built) (events : List Event) : (first.steps events).LocksSound := by
  obtain ⟨c, hu, rfl⟩ := h.exists_unused
  exact ((LocksSound.of_unused hu).step _).steps events

theorem handover (h : first.Built) (events : List Event) : Handover 0 (first.steps events) := by
  refine Handover.steps (.kept h.sweeper fun id stage hs => ?_) (h.locksSound []) events
  obtain ⟨token, hj⟩ := hs
  rw [h.jobs] at hj
  cases List.mem_singleton.1 (List.mem_of_getElem? hj)

/-- The sweeper stays the job that it is. -/
theorem getElem?_steps (h : first.Built) (events : List Event) :
    ∃ stage, (first.steps events).jobs[0]? = some ⟨.sweeper, .shutdown, stage⟩ := by
  have hj : first.jobs[0]? = some { request := .sweeper, token := .shutdown } := by rw [h.jobs]; rfl
  exact (h.locksSound []).job_steps hj events

/-- After the shutdown of the sweeper only one of its turns changes a store, the one in which it makes the call that it
was waiting to make. -/
theorem stores_last (h : first.Built) {before : List Event} (hc : (first.steps before).isCancelled .shutdown = true)
    {event event' : Event} (hm : event.Moves 0) (hm' : event'.Moves 0)
    (hne : (first.steps (before ++ [event])).stores ≠ (first.steps before).stores) (after : List Event) :
    (first.steps (before ++ [event] ++ after ++ [event'])).stores =
      (first.steps (before ++ [event] ++ after)).stores := by
  obtain ⟨stage, hj⟩ := h.getElem?_steps before
  have hl := h.locksSound before
  have hr : Request.Sweeps .sweeper := .inr rfl
  obtain ⟨c, hu, rfl⟩ := h.exists_unused
  have hmoved := hl.moved hj hm
  rw [← steps_snoc] at hmoved
  cases hmoved with
  | same heq => exact absurd (congrArg stores heq) hne
  | skip _ _ hs => exact absurd hs hne
  | @turn new shelves _ ht _ hj' =>
    have hstands := stands_steps hu (.start .sweeper .shutdown :: before) 0 _ hj
    have hc' := hl.cancelled_step hc event
    rw [← steps_snoc] at hc'
    let events : List Event := .start .sweeper .shutdown :: (before ++ [event])
    have hlater : (c.steps events).jobs[0]? = some ⟨.sweeper, .shutdown, new⟩ := hj'
    have hcancelled : (c.steps events).isCancelled .shutdown = true := hc'
    obtain ⟨stage', hwinds⟩ := winds hu hlater hr hcancelled after
    refine stores_of_halted hu hwinds.here hr hwinds.cancelled hm' fun s visit due hpausing => ?_
    -- The turn has left the sweeper in no pause.
    obtain rfl : stage' = .pausing s visit due := hpausing
    have hnew : new = .pausing s visit due := hwinds.winding.pausing
    obtain ⟨_, _, _, _, -, -, hreturned⟩ := ht.halted hstands hr hc (congrArg Stage.claim? hnew)
    cases hnew.symm.trans hreturned

end Built

/-- What becomes of the sweeper of a cache that is shut down, by however many calls. -/
structure ShutsDown (first : Cache) : Prop where
  /-- The first shutdown cancels the sweeper and waits for it, -/
  takes : ∀ events id, (first.steps events).ShutdownAt id .ready →
    (∀ other stage, (first.steps events).ShutdownAt other stage → stage = .ready) →
      (first.steps (events ++ [.run id])).ShutdownAt id (.awaiting 0) ∧
        (first.steps (events ++ [.run id])).isCancelled .shutdown = true
  /-- and it waits until the sweeper has ended. -/
  waits : ∀ before after id, (first.steps before).ShutdownAt id (.awaiting 0) →
    (first.steps (before ++ after)).ShutdownAt id (.awaiting 0) ∨ ((first.steps (before ++ after)).answer? 0).isSome
  /-- A shutdown that has returned has seen this end, unless another one is still waiting for it. -/
  returned : ∀ events id answer, (first.steps events).ShutdownAt id (.finished answer) →
    ((first.steps events).answer? 0).isSome ∨
      ∃ other, other ≠ id ∧ (first.steps events).ShutdownAt other (.awaiting 0)
  /-- The one that waits returns in its first turn after the end. -/
  joins : ∀ events id, (first.steps events).ShutdownAt id (.awaiting 0) → ((first.steps events).answer? 0).isSome →
    (first.steps (events ++ [.run id])).ShutdownAt id (.finished .ended)
  /-- Once the sweeper has ended, its turns change nothing, -/
  ended : ∀ before after event, ((first.steps before).answer? 0).isSome → event.Moves 0 →
    first.steps (before ++ after ++ [event]) = first.steps (before ++ after)
  /-- and the end of a call that it has left behind changes no store. -/
  completed : ∀ before s, (first.steps (before ++ [.complete s])).stores = (first.steps before).stores
  /-- If it has not ended when a shutdown has returned, one of its turns at most changes a store. -/
  last : ∀ before after event event' id answer, (first.steps before).ShutdownAt id (.finished answer) →
    event.Moves 0 → event'.Moves 0 → (first.steps (before ++ [event])).stores ≠ (first.steps before).stores →
      (first.steps (before ++ [event] ++ after ++ [event'])).stores =
        (first.steps (before ++ [event] ++ after)).stores
  /-- A shutdown that comes after another one returns in its first turn and does nothing else. -/
  again : ∀ events id other stage, (first.steps events).ShutdownAt id .ready →
    (first.steps events).ShutdownAt other stage → stage ≠ .ready →
      ∃ cancelled, (∀ token, token ∈ cancelled ↔ token ∈ (first.steps events).cancelled) ∧
        first.steps (events ++ [.run id]) = { (first.steps events).setStage id (.finished .ended) with cancelled }

/-- However the turns of the sweeper, of shutdowns and of all other jobs are mixed, the first shutdown returns after the
end of the sweeper, and so does every other one that does not overtake it. -/
theorem shutdown_waits {first : Cache} (h : first.Built) : first.ShutsDown where
  takes events id hs hready := by
    rw [steps_snoc]
    cases h.handover events with
    | kept hw =>
      rw [step_shutdown_some hs hw, shutdownAt_setStage hs, if_pos rfl]
      exact ⟨rfl, by simp [isCancelled, setStage]⟩
    | taken taker hw hc ht => rcases ht with ht | ⟨ht, -⟩ <;> cases hready taker _ ht
  waits before after id hs := by
    induction after using List.reverseRecOn with
    | nil => exact .inl (by rwa [List.append_nil])
    | append_singleton after event ih =>
      rw [← List.append_assoc, steps_snoc]
      have hl := h.locksSound (before ++ after)
      rcases ih with hs | ha
      · exact (hs.awaiting_step hl event).imp_right fun h => hl.answered_step h.1 event
      · exact .inr (hl.answered_step ha event)
  returned events id answer hs := by
    cases h.handover events with
    | kept _ hready => cases hready id _ hs
    | taken taker _ _ ht =>
      rcases ht with ht | ⟨-, ha⟩
      · refine .inr ⟨taker, ?_, ht⟩
        rintro rfl
        cases ht.unique hs
      · exact .inl ha
  joins events id hs ha := by
    obtain ⟨token, hj⟩ := hs
    rw [steps_snoc]
    exact ⟨token, by simp [step, run, hj, ha, finish, setStage]⟩
  ended before after event ha hm := by
    rw [steps_snoc]
    have ha' := (h.locksSound before).answered_steps ha after
    rw [← steps_append] at ha'
    obtain ⟨answer, ha'⟩ := Option.isSome_iff_exists.1 ha'
    obtain ⟨job, hj, hs⟩ := answer?_eq_some_iff.1 ha'
    exact step_over hj hs hm
  completed before s := by
    rw [steps_snoc]
    exact (h.locksSound before).stores_same fun _ hm => hm
  last before after event event' id answer hs hm hm' hne := by
    refine h.stores_last ?_ hm hm' hne after
    cases h.handover before with
    | kept _ hready => cases hready id _ hs
    | taken _ _ hc => exact hc
  again events id other stage hs hother hbegun := by
    cases h.handover events with
    | kept _ hready => exact absurd (hready other stage hother) hbegun
    | taken _ hw hc =>
      refine ⟨.shutdown :: (first.steps events).cancelled, fun token => ?_, ?_⟩
      · have hmem : Token.shutdown ∈ (first.steps events).cancelled := by simpa [isCancelled] using hc
        rw [List.mem_cons, or_iff_right_iff_imp]
        rintro rfl
        exact hmem
      · rw [steps_snoc, step_shutdown_none hs hw]
        rfl

/-- While a shutdown waits for the sweeper, which is about to delete an expired entry, another shutdown returns; the
sweeper deletes the entry after that, and only then the first shutdown returns. -/
example :
    let old : Record := ⟨[], { createdAt := default, notValidAfter := some default }⟩
    let stores : List Store := [.faulty { deleteDelay := 5 } (KeyMap.empty.insert "a/1" old)]
    let first : Cache :=
      { fresh ⟨KeyMap.empty.insert "a" 0⟩ stores 0 8 (.ofInstant default) with
        jobs := [{ request := .sweeper, token := .shutdown }], sweeper := some 0 }
    let before : List Event :=
      [.run 0, .run 0, .run 0, .run 0, .start .shutdown .never, .start .shutdown .never, .run 1, .run 2]
    let after : List Event := [.elapse 5, .run 0, .run 0, .run 0, .run 0, .run 1]
    (first.steps before).answer? 2 = some .ended ∧ (first.steps before).answer? 0 = none ∧
      (first.steps before).entries = 1 ∧ (first.steps (before ++ after)).entries = 0 ∧
        (first.steps (before ++ after)).answer? 1 = some .ended := by
  decide +kernel

end Cache

end RoutedCache

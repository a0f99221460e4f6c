import RoutedCache.Proofs.Cache.Account
import RoutedCache.Proofs.Cache.Desertion
import RoutedCache.Proofs.Cache.Lives
import RoutedCache.Proofs.Cache.Serve

/-!
# Lock discipline

A job holds or awaits one lock at a time, gets it after the jobs that asked before and did not give up, and lets go
of it when it is over, cancelled or out of time; a sweep that is out of time while a call on documents is under way
leaves the lock to this call until its end (`Cache.Disciplined`).  A lock changes by one job that joins its line at
the end or leaves it (`LocksSound.line_step`), so a job that waits stays ahead of those that ask later
(`Ahead.step`).  A cancelled job that is in no store does not get into one any more (`Barred.step`).
-/

namespace RoutedCache

namespace Cache

/-- The job waits for the lock of the store. -/
def Waits (c : Cache) (store : Nat) (id : JobId) : Prop :=
  ∃ shelf, c.shelves[store]? = some shelf ∧ id ∈ shelf.lock.waiting

/-- The job holds or awaits the lock of the store. -/
def Claims (c : Cache) (store : Nat) (id : JobId) : Prop := c.holds store id = true ∨ c.Waits store id

/-- The event is the turn in which the job leaves a lock that it has not got: its token is cancelled, or its time
for the mount is over. -/
def GivesUp (c : Cache) (id : JobId) (event : Event) : Prop :=
  ∃ job, c.jobs[id]? = some job ∧ (event = .run id ∧ c.isCancelled job.token = true ∨
    event = .expire id ∧ ∃ store cycle, job.stage.sweeping? = some (store, cycle) ∧ cycle.deadline ≤ c.time)

/-- What the locks promise in a cache. -/
structure Disciplined (c : Cache) : Prop where
  exclusive : ∀ s id id', c.holds s id = true → c.holds s id' = true → id = id'
  /-- The holder of a lock is a job that is not over, or a call that a sweep has left behind. -/
  holder : ∀ s shelf holder, c.shelves[s]? = some shelf → shelf.lock.holder = some holder →
    (holder = .work ∧ c.Deserted s) ∨ ∃ id job, holder = .job id ∧ c.holds s id = true ∧ c.jobs[id]? = some job ∧
      ∀ answer, job.stage ≠ .finished answer
  /-- A job is in a store under its lock only. -/
  worker : ∀ s id, c.inside? id = some s → c.holds s id = true
  single : ∀ s s' id, c.Claims s id → c.Claims s' id → s = s'
  apart : ∀ s id, c.holds s id = true → ¬c.Waits s id
  /-- Nobody waits for a free lock. -/
  free : ∀ s shelf, c.shelves[s]? = some shelf → shelf.lock.holder = none → ∀ id, ¬c.Waits s id
  /-- A job that waits gets the lock before every job that asks later, or it gives up. -/
  fifo : ∀ s id other, c.Waits s id → ¬c.Claims s other → ∀ more, (c.steps more).holds s other = true →
    ∃ before event after, more = before ++ event :: after ∧ (c.steps before).Waits s id ∧
      ((c.steps (before ++ [event])).holds s id = true ∨ (c.steps before).GivesUp id event)
  /-- A job whose token is cancelled before it has got a lock makes no call any more. -/
  silent : ∀ id job, c.jobs[id]? = some job → c.isCancelled job.token = true → job.stage.inside? = none →
    ∀ more s, ∀ made ∈ c.ledger more s, made.job ≠ id
  /-- A cancelled job leaves the lock that it awaits: a sweep skips the mount, and any other job is over. -/
  cancelled : ∀ id job s visit, c.jobs[id]? = some job → c.isCancelled job.token = true →
    job.stage = .queued s visit → (∀ s', ¬(c.step (.run id)).Claims s' id) ∧
      match job.stage.sweeping? with
      | some (_, cycle) => (c.step (.run id)).stage? id = some (.between cycle.skip)
      | none => (c.step (.run id)).answer? id = some (.failed .cancelled)
  /-- A cancelled job does not get the lock that it asks for, even if it is free. -/
  refused : ∀ id job s visit shelf, c.jobs[id]? = some job → c.isCancelled job.token = true →
    job.stage = .ready → job.request.route c.mounts c.clock = .ok (s, visit) → c.shelves[s]? = some shelf →
    shelf.lockRefusal? = none → (c.step (.run id)).answer? id = some (.failed .cancelled)
  ended : ∀ id answer, c.answer? id = some answer → ∀ s, ¬c.Claims s id
  /-- A sweep that is out of time goes away from the store, wherever it stands. -/
  expired : ∀ id job s cycle, c.jobs[id]? = some job → job.stage.sweeping? = some (s, cycle) →
    cycle.deadline ≤ c.time → ∀ s', ¬(c.step (.expire id)).Claims s' id
  /-- A lock is left behind exactly by a sweep that is out of time while its call on documents is under way, and until
  the end of this call nothing else happens to it: -/
  deserted : ∀ s event, (c.step event).Deserted s ↔ c.Deserted s ∧ event ≠ .complete s ∨ c.Deserts s event
  /-- the jobs that wait for it do not get it, -/
  kept : ∀ s id, c.Deserted s → c.holds s id = false
  /-- and then the first one of them does. -/
  completed : ∀ s shelf, c.shelves[s]? = some shelf → shelf.lock.holder = some .work →
    ∃ after, (c.step (.complete s)).shelves[s]? = some after ∧
      after.lock.holder = shelf.lock.waiting.head?.map .job ∧ after.lock.waiting = shelf.lock.waiting.tail

variable {c : Cache} {id : JobId} {job : Job} {s : Nat} {event : Event}

/-! ### Claims -/

theorem holds_iff :
    c.holds s id = true ↔ ∃ shelf, c.shelves[s]? = some shelf ∧ shelf.lock.holder = some (.job id) := by
  unfold holds
  cases c.shelves[s]? with
  | none => simp
  | some shelf => simp

theorem claims_iff_mem : c.Claims s id ↔ ∃ shelf, c.shelves[s]? = some shelf ∧ id ∈ shelf.lock.members := by
  unfold Claims Waits
  rw [holds_iff, ← exists_or]
  simp only [← and_or_left, Lock.mem_members_iff]

/-- A job claims the lock that its stage says. -/
theorem LocksSound.claims_iff (h : c.LocksSound) : c.Claims s id ↔ c.claim? id = some s := by
  rw [claims_iff_mem]
  constructor
  · intro ⟨shelf, hs, hmem⟩
    exact (h.members s shelf hs id).1 hmem
  · intro hclaim
    have hs := List.getElem?_eq_getElem (h.placed id s hclaim)
    exact ⟨_, hs, (h.members s _ hs id).2 hclaim⟩

theorem LocksSound.not_claims (h : c.LocksSound) {stage : Stage} (hs : c.stage? id = some stage)
    (hclaim : stage.claim? = none) (s : Nat) : ¬c.Claims s id := by
  rw [h.claims_iff, claim?, hs, Option.bind_some, hclaim]
  intro heq
  cases heq

theorem LocksSound.job_of_claims (h : c.LocksSound) (hclaims : c.Claims s id) :
    ∃ job, c.jobs[id]? = some job ∧ job.stage.claim? = some s := by
  have hclaim := h.claims_iff.1 hclaims
  unfold claim? stage? at hclaim
  cases hj : c.jobs[id]? with
  | none => simp [hj] at hclaim
  | some job => exact ⟨job, rfl, by simpa [hj] using hclaim⟩

/-! ### Cancelled jobs -/

theorem stage?_setStage (hj : c.jobs[id]? = some job) (stage : Stage) :
    (c.setStage id stage).stage? id = some stage := by
  simp [setStage, stage?, hj]

theorem stage?_proceed (hj : c.jobs[id]? = some job) {turn : Visit.Turn} (hturn : ∀ visit, turn ≠ .stay visit) :
    (c.proceed id turn).stage? id = some turn.stage := by
  cases turn with
  | answer answer => exact stage?_setStage hj _
  | move cycle => exact stage?_setStage hj _
  | stay visit => exact absurd rfl (hturn visit)

/-- The turn of a cancelled job that awaits a lock. -/
theorem stage?_run_cancelled (hj : c.jobs[id]? = some job) (hc : c.isCancelled job.token = true) {visit : Visit}
    (hs : job.stage = .queued s visit) :
    (c.step (.run id)).stage? id = some (visit.fail .cancelled).stage := by
  simp only [step, run, hj, hs, if_pos hc]
  have hleft : (c.leave s id).jobs[id]? = some job := hj
  exact stage?_proceed hleft (fail_ne_stay visit · .cancelled)

/-- The turn of a cancelled job that asks for a lock. -/
theorem stage?_run_refused (hj : c.jobs[id]? = some job) (hc : c.isCancelled job.token = true)
    (hs : job.stage = .ready) {visit : Visit} (hroute : job.request.route c.mounts c.clock = .ok (s, visit))
    {shelf : Shelf} (hshelf : c.shelves[s]? = some shelf) (hopen : shelf.lockRefusal? = none) :
    (c.step (.run id)).stage? id = some (visit.fail .cancelled).stage := by
  simp only [step, run, hj, hs]
  rw [begin_admitted hroute rfl]
  simp only [ask, hshelf, hopen]
  have hc' : ({ c with shelves := c.shelves.set s shelf.requested } : Cache).isCancelled job.token = true := hc
  rw [if_pos hc']
  have hasked : ({ c with shelves := c.shelves.set s shelf.requested } : Cache).jobs[id]? = some job := hj
  exact stage?_proceed hasked (fail_ne_stay visit · .cancelled)

/-- The turn in which a sweep is out of time. -/
theorem stage?_expire (hj : c.jobs[id]? = some job) {cycle : SweepCycle}
    (hs : job.stage.sweeping? = some (s, cycle)) (hd : cycle.deadline ≤ c.time) :
    (c.step (.expire id)).stage? id = some (.between cycle.skip) := by
  have hgone : (c.giveUp s id).jobs[id]? = some job := by rw [jobs_giveUp, hj]
  simp only [step, expire, stage?_eq hj, Option.bind_some, hs, if_pos hd]
  exact stage?_setStage hgone _

/-- The job is cancelled and in no store. -/
def Barred (c : Cache) (id : JobId) : Prop :=
  ∃ job, c.jobs[id]? = some job ∧ c.isCancelled job.token = true ∧ job.stage.inside? = none

end Cache

variable {c : Cache} {id : JobId} {job : Job} {s : Nat} {event : Event}

/-- A cancelled job stays out of the stores. -/
theorem Transition.outside {old new : Stage} {shelves : List Shelf} (ht : Transition c id job old new shelves)
    (hc : c.isCancelled job.token = true) (ho : old.inside? = none) : new.inside? = none := by
  have hturn (turn : Visit.Turn) : turn.stage.inside? = none := by cases turn <;> rfl
  cases ht with
  | aside ha => cases ha <;> rfl
  | refuse => exact hturn _
  | cancel => exact hturn _
  | queue => rfl
  | enter _ _ _ hnot => rw [hc] at hnot; cases hnot
  | grant _ hnot => rw [hc] at hnot; cases hnot
  | call => cases ho
  | stay => cases ho
  | leave => exact hturn _

namespace Cache

/-- A job that is cancelled and in no store is in no store after the next event either. -/
theorem Barred.step (hb : c.Barred id) (h : c.LocksSound) (event : Event) : (c.step event).Barred id := by
  obtain ⟨job, hj, hc, ho⟩ := hb
  have hcancelled := h.cancelled_step hc event
  by_cases hm : event.Moves id
  · have heffect := h.effect event
    generalize c.step event = c' at heffect hcancelled ⊢
    cases heffect with
    | start hevent =>
      rw [hevent] at hm
      exact hm.elim
    | @turn _ _ next shelves cancelled sweeper hm' hj' ht =>
      obtain rfl := hm.unique hm'
      rw [hj] at hj'
      cases hj'
      have hjobs := getElem?_settle hj shelves cancelled sweeper job.stage next id
      exact ⟨_, hjobs.trans (if_pos rfl), hcancelled, ht.outside hc ho⟩
    | @skip _ _ next shelves hm' hj' he =>
      obtain rfl := hm.unique hm'
      rw [hj] at hj'
      cases hj'
      have hjobs := getElem?_settle hj shelves c.cancelled c.sweeper job.stage next id
      cases he with
      | skip => exact ⟨_, hjobs.trans (if_pos rfl), hcancelled, rfl⟩
    | complete hevent =>
      rw [hevent] at hm
      exact hm.elim
    | aside => exact ⟨job, hj, hcancelled, ho⟩
  · exact ⟨job, h.job_same hj hm, hcancelled, ho⟩

/-- A job that ends an event in no store has made no call in it. -/
theorem Barred.note (hb : (c.step event).Barred id) {ledger : Ledger} {made : Made}
    (hm : made ∈ ledger.note c event s) (hid : made.job = id) : made ∈ ledger s := by
  cases event with
  | run j =>
    subst hid
    rcases Ledger.mem_enter hm with hmem | ⟨rfl, hmade⟩
    · exact hmem
    · obtain ⟨job, hj, -, ho⟩ := hb
      rw [show (c.run made.job).stage? made.job = some job.stage from stage?_eq hj, Option.bind_some] at hmade
      rw [Stage.inside?_of_made? hmade] at ho
      cases ho
  | _ => exact hm

theorem Barred.along (hb : c.Barred id) (h : c.LocksSound) (more : List Event) {ledger : Ledger} {made : Made}
    (hm : made ∈ ledger.along c more s) (hid : made.job = id) : made ∈ ledger s := by
  induction more generalizing c ledger with
  | nil => exact hm
  | cons event more ih =>
    have hb' := hb.step h event
    exact hb'.note (ih hb' (h.step event) hm) hid

/-! ### The line of a lock -/

private theorem line_set {store : Nat} {shelf shelf' : Shelf} {old new : Stage}
    (hl : LockChange id store old new shelf.lock shelf'.lock) (hs : c.shelves[store]? = some shelf)
    {other : Shelf} (hother : c.shelves[s]? = some other) :
    ∃ after, (c.shelves.set store shelf')[s]? = some after ∧
      (after.lock.members = other.lock.members ∨ after.lock.members = other.lock.members ++ [id] ∨
        after.lock.members = other.lock.members.filter (· ≠ id)) := by
  by_cases hss : store = s
  · subst hss
    rw [hs] at hother
    cases hother
    exact ⟨shelf', List.getElem?_set_self (List.getElem?_eq_some_iff.1 hs).1, hl.order⟩
  · exact ⟨other, by rw [List.getElem?_set, if_neg hss, hother], .inl rfl⟩

/-- In an event the line of a lock stays as it is, or the job that has its turn joins it at the end or leaves it. -/
theorem LocksSound.line_step (h : c.LocksSound) {shelf : Shelf} (hs : c.shelves[s]? = some shelf) (event : Event) :
    ∃ after, (c.step event).shelves[s]? = some after ∧ (after.lock.members = shelf.lock.members ∨
      ∃ i, event.Moves i ∧ (after.lock.members = shelf.lock.members ++ [i] ∨
        after.lock.members = shelf.lock.members.filter (· ≠ i))) := by
  have heffect := h.effect event
  generalize c.step event = c' at heffect ⊢
  cases heffect with
  | start => exact ⟨shelf, hs, .inl rfl⟩
  | @turn i job next shelves _ _ hm hj ht =>
    rcases h.lockChange hj ht with ⟨rfl, -⟩ | ⟨store, before, after, hbefore, rfl, hl⟩
    · exact ⟨shelf, hs, .inl rfl⟩
    · obtain ⟨other, hother, hline⟩ := line_set hl hbefore hs
      exact ⟨other, hother, hline.imp_right fun hline => ⟨i, hm, hline⟩⟩
  | @skip i job next shelves hm hj he =>
    cases he with
    | @skip store cycle before hk _ hbefore =>
      have hl : LockChange i store job.stage .ready before.lock
          (before.givenUp i (job.stage.working before.store)).lock :=
        .giveUp (h.sound _ _ hbefore) (.inr (Stage.claim?_of_sweeping? hk)) rfl _
      obtain ⟨other, hother, hline⟩ := line_set hl hbefore hs
      exact ⟨other, hother, hline.imp_right fun hline => ⟨i, hm, hline⟩⟩
  | @complete store before _ hbefore =>
    by_cases hss : store = s
    · subst hss
      obtain rfl := Option.some.inj (hbefore.symm.trans hs)
      exact ⟨_, List.getElem?_set_self (List.getElem?_eq_some_iff.1 hs).1, .inl (Lock.members_release _)⟩
    · exact ⟨shelf, (List.getElem?_set_ne hss).trans hs, .inl rfl⟩
  | aside => exact ⟨shelf, hs, .inl rfl⟩

/-- A job does not wait for the lock that it holds. -/
theorem LocksSound.not_waits (h : c.LocksSound) (hholds : c.holds s id = true) : ¬c.Waits s id := by
  rintro ⟨shelf, hs, hmem⟩
  obtain ⟨shelf', hs', hholder⟩ := holds_iff.1 hholds
  rw [hs] at hs'
  cases hs'
  have hnodup := (h.sound s shelf hs).nodup
  rw [Lock.members, hholder] at hnodup
  exact (List.nodup_cons.1 hnodup).1 hmem

/-- A job that waits stays in its place in its turns, or it gives up. -/
theorem LocksSound.waiting_turn (h : c.LocksSound) (hw : c.Waits s id) (hm : event.Moves id) :
    c.step event = c ∨ c.GivesUp id event := by
  obtain ⟨job, hj, hclaim⟩ := h.job_of_claims (.inr hw)
  have hnot (store : Nat) (hholds : c.holds store id = true) : False := by
    have hsame : store = s := by
      have hclaim' := h.claims_iff.1 (.inl hholds)
      rw [h.claims_iff.1 (.inr hw)] at hclaim'
      exact (Option.some.inj hclaim').symm
    subst hsame
    exact h.not_waits hholds hw
  cases event with
  | run i =>
    obtain rfl : i = id := hm
    -- Inside the store the job would hold the lock, so it stands in the line.
    cases hs : job.stage with
    | queued store visit =>
      simp only [Cache.step, run, hj, hs]
      split
      next hc => exact .inr ⟨job, hj, .inl ⟨rfl, hc⟩⟩
      next =>
        split
        next hholds => exact (hnot store hholds).elim
        next => exact .inl rfl
    | _ =>
      rw [hs] at hclaim
      have hin : c.inside? i = some s := by rw [inside?_eq hj, hs]; exact hclaim
      exact (hnot s (holds_iff.2 (h.inside i s hin))).elim
  | expire i =>
    obtain rfl : i = id := hm
    simp only [Cache.step, expire, stage?_eq hj, Option.bind_some]
    split
    next store cycle hsweep =>
      split
      next hd => exact .inr ⟨job, hj, .inr ⟨rfl, store, cycle, hsweep, hd⟩⟩
      next => exact .inl rfl
    next => exact .inl rfl
  | _ => exact hm.elim

/-- The job is in the line of the lock, and the other one is not in front of it. -/
def Ahead (c : Cache) (store : Nat) (id other : JobId) : Prop :=
  ∃ shelf front back, c.shelves[store]? = some shelf ∧ shelf.lock.members = front ++ id :: back ∧ other ∉ front

variable {other : JobId}

theorem Ahead.claims (ha : c.Ahead s id other) : c.Claims s id := by
  obtain ⟨shelf, front, back, hs, hmembers, -⟩ := ha
  exact claims_iff_mem.2 ⟨shelf, hs, by simp [hmembers]⟩

/-- Whoever is not in front of a job is not the holder. -/
theorem Ahead.not_holds (ha : c.Ahead s id other) (hne : other ≠ id) : c.holds s other = false := by
  obtain ⟨shelf, front, back, hs, hmembers, hfront⟩ := ha
  rw [Bool.eq_false_iff]
  intro hholds
  obtain ⟨shelf', hs', hholder⟩ := holds_iff.1 hholds
  rw [hs] at hs'
  cases hs'
  rw [Lock.members, hholder] at hmembers
  cases front with
  | nil => exact hne (List.cons.inj hmembers).1
  | cons first front =>
    obtain ⟨rfl, -⟩ := List.cons.inj hmembers
    exact hfront List.mem_cons_self

theorem Ahead.of_claims (hw : c.Claims s id) (hnot : ¬c.Claims s other) : c.Ahead s id other := by
  obtain ⟨shelf, hs, hmem⟩ := claims_iff_mem.1 hw
  obtain ⟨front, back, hmembers⟩ := List.append_of_mem hmem
  refine ⟨shelf, front, back, hs, hmembers, fun hfront => hnot ?_⟩
  exact claims_iff_mem.2 ⟨shelf, hs, by simp [hmembers, hfront]⟩

/-- A job that waits keeps its place before another one, or it gives up. -/
theorem Ahead.step (ha : c.Ahead s id other) (h : c.LocksSound) (hw : c.Waits s id) (event : Event) :
    c.GivesUp id event ∨ (c.step event).Ahead s id other := by
  obtain ⟨shelf, front, back, hs, hmembers, hfront⟩ := ha
  obtain ⟨after, hafter, hline⟩ := h.line_step hs event
  rcases hline with hsame | ⟨i, hm, hjoins | hleaves⟩
  · exact .inr ⟨after, front, back, hafter, hsame.trans hmembers, hfront⟩
  · refine .inr ⟨after, front, back ++ [i], hafter, ?_, hfront⟩
    rw [hjoins, hmembers, List.append_assoc, List.cons_append]
  · by_cases hi : i = id
    · subst hi
      rcases h.waiting_turn hw hm with hstays | hgives
      · rw [hstays]
        exact .inr ⟨shelf, front, back, hs, hmembers, hfront⟩
      · exact .inl hgives
    · refine .inr ⟨after, front.filter (· ≠ i), back.filter (· ≠ i), hafter, ?_, ?_⟩
      · rw [hleaves, hmembers, List.filter_append, List.filter_cons_of_pos (by simpa using Ne.symm hi)]
      · exact fun hmem => hfront (List.mem_filter.1 hmem).1

/-- A job that waits gets the lock before the jobs that are behind it, or it gives up. -/
theorem Ahead.overtakes (ha : c.Ahead s id other) (h : c.LocksSound) (hw : c.Waits s id) (hne : other ≠ id)
    (more : List Event) (hholds : (c.steps more).holds s other = true) :
    ∃ before event after, more = before ++ event :: after ∧ (c.steps before).Waits s id ∧
      ((c.steps (before ++ [event])).holds s id = true ∨ (c.steps before).GivesUp id event) := by
  induction more generalizing c with
  | nil =>
    have hnot := ha.not_holds hne
    rw [show c.steps [] = c from rfl, hnot] at hholds
    cases hholds
  | cons event more ih =>
    rcases ha.step h hw event with hgives | hahead
    · exact ⟨[], event, more, rfl, hw, .inr hgives⟩
    · rcases hahead.claims with hgets | hwaits
      · exact ⟨[], event, more, rfl, hw, .inl hgets⟩
      · obtain ⟨before, event', after, rfl, hlater⟩ := ih hahead (h.step event) hwaits hholds
        exact ⟨event :: before, event', after, rfl, hlater⟩

/-! ### Discipline -/

theorem holds_unique (hid : c.holds s id = true) (hother : c.holds s other = true) : id = other := by
  obtain ⟨shelf, hs, hholder⟩ := holds_iff.1 hid
  obtain ⟨shelf', hs', hholder'⟩ := holds_iff.1 hother
  rw [hs] at hs'
  cases hs'
  rw [hholder] at hholder'
  exact Holder.job.inj (Option.some.inj hholder')

namespace LocksSound

theorem claims_unique (h : c.LocksSound) {s' : Nat} (hs : c.Claims s id) (hs' : c.Claims s' id) : s = s' := by
  rw [h.claims_iff] at hs hs'
  rw [hs] at hs'
  exact Option.some.inj hs'

theorem not_finished_of_holds (h : c.LocksSound) (hholds : c.holds s id = true) :
    ∃ job, c.jobs[id]? = some job ∧ ∀ answer, job.stage ≠ .finished answer := by
  obtain ⟨job, hj, hclaim⟩ := h.job_of_claims (.inl hholds)
  refine ⟨job, hj, fun answer hs => ?_⟩
  rw [hs] at hclaim
  cases hclaim

theorem not_waits_of_free (h : c.LocksSound) {shelf : Shelf} (hs : c.shelves[s]? = some shelf)
    (hfree : shelf.lock.holder = none) (id : JobId) : ¬c.Waits s id := by
  rintro ⟨shelf', hs', hmem⟩
  obtain rfl := Option.some.inj (hs.symm.trans hs')
  rw [(h.sound s shelf hs).free hfree] at hmem
  cases hmem

theorem fifo (h : c.LocksSound) (hw : c.Waits s id) (hnot : ¬c.Claims s other) (more : List Event)
    (hholds : (c.steps more).holds s other = true) : ∃ before event after, more = before ++ event :: after ∧
      (c.steps before).Waits s id ∧
        ((c.steps (before ++ [event])).holds s id = true ∨ (c.steps before).GivesUp id event) := by
  have hne : other ≠ id := by
    rintro rfl
    exact hnot (.inr hw)
  exact (Ahead.of_claims (.inr hw) hnot).overtakes h hw hne more hholds

theorem cancelled_in_line (h : c.LocksSound) (hj : c.jobs[id]? = some job) (hc : c.isCancelled job.token = true)
    {visit : Visit} (hs : job.stage = .queued s visit) : (∀ s', ¬(c.step (.run id)).Claims s' id) ∧
      match job.stage.sweeping? with
      | some (_, cycle) => (c.step (.run id)).stage? id = some (.between cycle.skip)
      | none => (c.step (.run id)).answer? id = some (.failed .cancelled) := by
  have hstage := stage?_run_cancelled hj hc hs
  constructor
  · exact (h.step (.run id)).not_claims hstage (Visit.Turn.claim?_stage _)
  · rw [hs]
    cases visit with
    | list path cycle => exact hstage
    | evict key mount cycle => exact hstage
    | _ =>
      show answer? _ _ = _
      rw [answer?, hstage]
      rfl

theorem disciplined (h : c.LocksSound) : c.Disciplined where
  exclusive _ _ _ := holds_unique
  holder s shelf holder hs hholder := by
    cases holder with
    | work => exact .inl ⟨rfl, shelf, hs, hholder⟩
    | job id =>
      have hholds : c.holds s id = true := holds_iff.2 ⟨shelf, hs, hholder⟩
      obtain ⟨job, hj, hover⟩ := h.not_finished_of_holds hholds
      exact .inr ⟨id, job, rfl, hholds, hj, hover⟩
  worker s id hin := holds_iff.2 (h.inside id s hin)
  single _ _ _ := h.claims_unique
  apart _ _ := h.not_waits
  free _ _ := h.not_waits_of_free
  fifo _ _ _ hw hnot more := h.fifo hw hnot more
  silent id job hj hc ho more s made hm hid := by
    have hbarred : c.Barred id := ⟨job, hj, hc, ho⟩
    exact absurd (hbarred.along h more hm hid) List.not_mem_nil
  cancelled _ _ _ _ hj hc hs := h.cancelled_in_line hj hc hs
  refused id job s visit shelf hj hc hs hroute hshelf hopen := by
    have hfail : visit.fail .cancelled = .answer (.failed .cancelled) := by
      generalize job.request = request at hroute
      cases Request.routed hroute <;> rfl
    rw [answer?, stage?_run_refused hj hc hs hroute hshelf hopen, hfail]
    rfl
  ended id answer ha := by
    obtain ⟨job, hj, hs⟩ := answer?_eq_some_iff.1 ha
    exact h.not_claims ((stage?_eq hj).trans (congrArg some hs)) rfl
  expired id _ _ _ hj hs hd := (h.step (.expire id)).not_claims (stage?_expire hj hs hd) rfl
  deserted _ := h.deserted_step_iff
  kept s id hdeserted := by
    obtain ⟨shelf, hs, hwork⟩ := hdeserted
    rw [Bool.eq_false_iff]
    intro hholds
    obtain ⟨shelf', hs', hholder⟩ := holds_iff.1 hholds
    obtain rfl := Option.some.inj (hs.symm.trans hs')
    rw [hwork] at hholder
    cases hholder
  completed _ _ := Cache.completed

end LocksSound

/-- The locks keep their discipline in every schedule. -/
theorem locks_disciplined {first : Cache} (hu : first.Unused) (events : List Event) :
    (first.steps events).Disciplined :=
  ((LocksSound.of_unused hu).steps events).disciplined

/-- Two mounts share a store: one job holds its lock, and of the two that wait the first one is cancelled. -/
theorem locks_disciplined_shared :
    let first := fresh ⟨(KeyMap.empty.insert "a" 0).insert "b" 0⟩ [.memory .empty] 0 0 (.ofInstant default)
    let events : List Event := [.start (.hold 0 5) .never, .start (.read "a/k") (.call 1),
      .start (.delete "b/k") .never, .run 0, .run 1, .run 2, .cancel (.call 1)]
    first.Unused ∧ (first.steps events).Disciplined ∧
      (first.steps events).shelves.map (·.lock) = [{ holder := some (.job 0), waiting := [1, 2] }] ∧
      ((first.steps events).step (.run 1)).answer? 1 = some (.failed .cancelled) := by
  intro first events
  have hu : first.Unused := unused_fresh ..
  have hdisciplined := locks_disciplined hu events
  have hjob : (first.steps events).jobs[1]? =
      some { request := .read "a/k", token := .call 1, stage := .queued 0 (.get "a/k") } := by decide +kernel
  have hcancelled := hdisciplined.cancelled 1 _ 0 (.get "a/k") hjob (by decide +kernel) rfl
  exact ⟨hu, hdisciplined, by decide +kernel, hcancelled.2⟩

/-- A sweep has no time for the listing of a collection: it is over, and still the lock is not free but left to the
listing.  A read waits for it, and either it is cancelled while it waits, or it gets the lock at the end of the
listing. -/
theorem listing_outlasts_sweep :
    let first := fresh ⟨KeyMap.empty.insert "m" 0⟩ [.document [] "c" .empty .empty] 0 0 (.ofInstant default)
    let events : List Event := [.start .sweep .never, .run 0, .run 0, .expire 0, .run 0,
      .start (.read "m/k") .trip, .run 1]
    first.Unused ∧ (first.steps events).answer? 0 = some (.swept { skippedMounts := 1 }) ∧
      ¬(∀ (s : Nat) (shelf : Shelf) (holder : Holder), (first.steps events).shelves[s]? = some shelf →
        shelf.lock.holder = some holder → ∃ id job, holder = .job id ∧ (first.steps events).jobs[id]? = some job ∧
          ∀ answer, job.stage ≠ .finished answer) ∧
      (first.steps (events ++ [.cancel .trip, .run 1])).answer? 1 = some (.failed .cancelled) ∧
      (first.steps (events ++ [.complete 0])).holds 0 1 = true := by
  intro first events
  refine ⟨unused_fresh .., by decide +kernel, fun hjobs => ?_, by decide +kernel, by decide +kernel⟩
  have hshelf : (first.steps events).shelves[0]? =
      some ⟨.document [] "c" .empty .empty, { holder := some .work, waiting := [1] }, []⟩ := by decide +kernel
  obtain ⟨_, _, heq, -⟩ := hjobs 0 _ .work hshelf rfl
  cases heq

end Cache

end RoutedCache

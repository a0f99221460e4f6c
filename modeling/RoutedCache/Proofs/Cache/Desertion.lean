import RoutedCache.Proofs.Cache.Locks

/-!
# Locks that are left to a call

A sweep that is out of time does not wait for a call on documents that is under way: it goes away and leaves the lock
of the store to this call (`Cache.Deserts`).  No other event leaves a lock behind, and a lock that was left behind
stays so until the end of the call (`LocksSound.deserted_step_iff`).  Then the first job in its line gets it
(`Cache.completed`).
-/

namespace RoutedCache

namespace Lock

variable {lock : Lock} {id : JobId}

theorem abandon_eq_work_iff :
    (lock.abandon id).holder = some .work ↔ lock.holder = some .work ∨ lock.holder = some (.job id) := by
  unfold abandon
  split
  next h => simp [h]
  next h => simp [h, leave_eq_work_iff]

theorem release_ne_work (lock : Lock) : lock.release.holder ≠ some .work := by
  unfold release
  split
  next => exact handOver_ne_work lock
  next h => exact h

end Lock

/-- The lock of the store is left to a call that no job waits for any more. -/
def desertedIn (shelves : List Shelf) (store : Nat) : Prop :=
  ∃ shelf, shelves[store]? = some shelf ∧ shelf.lock.holder = some .work

variable {shelves : List Shelf} {store s : Nat} {shelf shelf' : Shelf}

theorem desertedIn_iff (hs : shelves[s]? = some shelf) :
    desertedIn shelves s ↔ shelf.lock.holder = some .work := by
  simp [desertedIn, hs]

theorem desertedIn_set (hs : shelves[store]? = some shelf) (shelf' : Shelf) :
    desertedIn (shelves.set store shelf') s ↔
      if s = store then shelf'.lock.holder = some .work else desertedIn shelves s := by
  split
  next heq =>
    subst heq
    exact desertedIn_iff (List.getElem?_set_self (List.getElem?_eq_some_iff.1 hs).1)
  next hne => rw [desertedIn, List.getElem?_set_ne (Ne.symm hne), desertedIn]

theorem desertedIn_set_same (hs : shelves[store]? = some shelf)
    (h : shelf'.lock.holder = some .work ↔ shelf.lock.holder = some .work) :
    desertedIn (shelves.set store shelf') s ↔ desertedIn shelves s := by
  rw [desertedIn_set hs]
  split
  next heq => rw [heq, desertedIn_iff hs, h]
  next => rfl

variable {c : Cache} {id : JobId} {job : Job} {event : Event}

theorem Visits.work {visit : Visit} {next : Stage} (hv : Visits c id store shelf visit next shelf') :
    shelf'.lock.holder = some .work ↔ shelf.lock.holder = some .work := by
  rcases Cache.lock_visits hv with ⟨-, hlock⟩ | ⟨-, hlock⟩
  · rw [hlock]
  · rw [hlock, Lock.leave_eq_work_iff]

/-- A turn of a job leaves no lock behind and takes none that was. -/
theorem Transition.deserted {old new : Stage} (ht : Transition c id job old new shelves) :
    desertedIn shelves s ↔ desertedIn c.shelves s := by
  cases ht with
  | aside => rfl
  | refuse _ hs => exact desertedIn_set_same hs Iff.rfl
  | cancel _ hs => exact desertedIn_set_same hs Iff.rfl
  | queue _ hs => exact desertedIn_set_same hs Lock.ask_eq_work_iff
  | enter _ hs _ _ _ hv => exact desertedIn_set_same hs (hv.work.trans Lock.ask_eq_work_iff)
  | grant hs _ _ hv => exact desertedIn_set_same hs hv.work
  | call hs => exact desertedIn_set_same hs (by rw [Shelf.lock_perform])
  | stay hs _ hv => exact desertedIn_set_same hs hv.work
  | leave _ hs => exact desertedIn_set_same hs Lock.leave_eq_work_iff

/-- A job that leaves a call behind is at work in the store. -/
theorem Stage.inside?_of_working {stage : Stage} {store : Store} {cycle : SweepCycle}
    (hk : stage.sweeping? = some (s, cycle)) (h : stage.working store = true) : stage.inside? = some s := by
  have hclaim := Stage.claim?_of_sweeping? hk
  cases stage with
  | returned => exact hclaim
  | _ => cases h

namespace Cache

def Deserted (c : Cache) (store : Nat) : Prop := desertedIn c.shelves store

/-- The time for a mount is over while a call of its sweep on the documents of the store is under way. -/
def Deserts (c : Cache) (store : Nat) (event : Event) : Prop :=
  ∃ id job cycle, event = .expire id ∧ c.jobs[id]? = some job ∧ job.stage.sweeping? = some (store, cycle) ∧
    cycle.deadline ≤ c.time ∧ c.yielded id = true

namespace LocksSound

/-- What the end of the time for a mount leaves behind. -/
private theorem deserted_skip (h : c.LocksSound) (hj : c.jobs[id]? = some job) {cycle : SweepCycle}
    (hk : job.stage.sweeping? = some (store, cycle)) (hs : c.shelves[store]? = some shelf) :
    desertedIn (c.shelves.set store (shelf.givenUp id (job.stage.working shelf.store))) s ↔
      c.Deserted s ∨ s = store ∧ c.yielded id = true := by
  rw [desertedIn_set hs, yielded_eq hj hk hs]
  by_cases hss : s = store
  · subst hss
    rw [if_pos rfl, Deserted, desertedIn_iff hs]
    cases hw : job.stage.working shelf.store with
    | false => simpa [Shelf.givenUp] using Lock.leave_eq_work_iff
    | true =>
      -- The job has the lock, since it is at work in the store.
      have hholder : shelf.lock.holder = some (.job id) :=
        h.holder_of_inside ((inside?_eq hj).trans (Stage.inside?_of_working hk hw)) hs
      simpa [Shelf.givenUp] using Lock.abandon_eq_work_iff.2 (.inr hholder)
  · rw [if_neg hss]
    simp [hss, Deserted]

private theorem deserted_expire (h : c.LocksSound) (id : JobId) :
    (c.expire id).Deserted s ↔ c.Deserted s ∨ c.Deserts s (.expire id) := by
  cases hj : c.jobs[id]? with
  | none => simp [expire, stage?, hj, Deserts]
  | some job =>
    have hdeserts : c.Deserts s (.expire id) ↔ ∃ cycle, job.stage.sweeping? = some (s, cycle) ∧
        cycle.deadline ≤ c.time ∧ c.yielded id = true := by
      constructor
      · rintro ⟨_, job', cycle, heq, hj', h⟩
        cases heq
        obtain rfl := Option.some.inj (hj.symm.trans hj')
        exact ⟨cycle, h⟩
      · rintro ⟨cycle, h⟩
        exact ⟨id, job, cycle, rfl, hj, h⟩
    rw [hdeserts]
    cases hk : job.stage.sweeping? with
    | none => simp [expire, stage?_eq hj, hk]
    | some pair =>
      obtain ⟨store, cycle⟩ := pair
      by_cases hd : cycle.deadline ≤ c.time
      · have hs := List.getElem?_eq_getElem
          (h.placed id store ((claim?_eq hj).trans (Stage.claim?_of_sweeping? hk)))
        rw [expire_eq hj hk hd hs]
        refine (h.deserted_skip hj hk hs).trans (or_congr_right ⟨?_, ?_⟩)
        · rintro ⟨rfl, hy⟩
          exact ⟨cycle, rfl, hd, hy⟩
        · rintro ⟨_, heq, -, hy⟩
          cases heq
          exact ⟨rfl, hy⟩
      · have hnot : ∀ cycle', some (store, cycle) = some (s, cycle') → ¬cycle'.deadline ≤ c.time := by
          intro cycle' heq
          cases heq
          exact hd
        simp only [expire, stage?_eq hj, Option.bind_some, hk, if_neg hd]
        refine ⟨.inl, fun h => h.resolve_right ?_⟩
        rintro ⟨cycle', heq, hd', -⟩
        exact hnot cycle' heq hd'

/-- The end of a call that was left behind. -/
private theorem deserted_complete : (c.step (.complete store)).Deserted s ↔ c.Deserted s ∧ s ≠ store := by
  have hne {shelf : Shelf} (hs : c.shelves[s]? = some shelf) (hnone : c.shelves[store]? = none) : s ≠ store := by
    rintro rfl
    rw [hs] at hnone
    cases hnone
  cases hs : c.shelves[store]? with
  | none =>
    have hsame : c.step (.complete store) = c := by
      refine (complete_cases c store).resolve_right ?_
      rintro ⟨_, hs', -⟩
      rw [hs] at hs'
      cases hs'
    rw [hsame]
    exact ⟨fun hd => ⟨hd, hne hd.choose_spec.1 hs⟩, And.left⟩
  | some shelf =>
    rw [show c.step (.complete store) = _ from setLock_eq hs _, Deserted, desertedIn_set hs]
    by_cases hss : s = store
    · rw [if_pos hss]
      simp [hss, Lock.release_ne_work]
    · rw [if_neg hss]
      simp [hss, Deserted]

/-- A lock is left to a call only if the time of a sweep is over while the call is under way, and it stays so until
the end of the call. -/
theorem deserted_step_iff (h : c.LocksSound) (event : Event) :
    (c.step event).Deserted s ↔ c.Deserted s ∧ event ≠ .complete s ∨ c.Deserts s event := by
  have hquiet (hc : event ≠ .complete s) (he : ∀ id, event ≠ .expire id) :
      c.Deserted s ∧ event ≠ .complete s ∨ c.Deserts s event ↔ c.Deserted s := by
    refine ⟨?_, fun hd => .inl ⟨hd, hc⟩⟩
    rintro (⟨hd, -⟩ | ⟨id, _, _, heq, -⟩)
    · exact hd
    · exact absurd heq (he id)
  cases event with
  | run id =>
    rw [hquiet (by simp) (by simp)]
    cases hj : c.jobs[id]? with
    | none => simp only [Cache.step, run, hj]
    | some job =>
      rcases h.run_cases hj with ⟨hrun, -⟩ | ⟨next, shelves, cancelled, sweeper, ht, -, hrun⟩
      · rw [Cache.step, hrun]
      · rw [Cache.step, hrun]
        exact ht.deserted
  | expire id =>
    rw [and_iff_left (by simp)]
    exact h.deserted_expire id
  | complete store =>
    have hnot : ¬c.Deserts s (.complete store) := by
      rintro ⟨_, _, _, heq, -⟩
      cases heq
    rw [or_iff_left hnot, deserted_complete]
    refine and_congr_right fun _ => not_congr ?_
    exact ⟨fun heq => congrArg Event.complete heq.symm, fun heq => (Event.complete.inj heq).symm⟩
  | cancel token =>
    rw [hquiet (by simp) (by simp), Cache.step, cancel]
    split <;> rfl
  | start | elapse | setClock => exact (hquiet (by simp) (by simp)).symm

end LocksSound

/-- At the end of the call the first job in the line gets the lock. -/
theorem completed (hs : c.shelves[s]? = some shelf) (hw : shelf.lock.holder = some .work) :
    ∃ after, (c.step (.complete s)).shelves[s]? = some after ∧
      after.lock.holder = shelf.lock.waiting.head?.map .job ∧ after.lock.waiting = shelf.lock.waiting.tail := by
  refine ⟨shelf.released, ?_, ?_⟩
  · rw [show c.step (.complete s) = _ from setLock_eq hs _]
    exact List.getElem?_set_self (List.getElem?_eq_some_iff.1 hs).1
  · rw [Shelf.released, Lock.release, if_pos hw]
    exact ⟨Lock.holder_handOver shelf.lock, Lock.waiting_handOver shelf.lock⟩

end Cache

end RoutedCache

import RoutedCache.Proofs.Cache.Locks

/-!
# Lives of jobs

A job keeps its number, its request and its token; only its own turns take it to another stage, and nothing does
once it is over.  A token that is cancelled stays cancelled.
-/

namespace RoutedCache

namespace Cache

variable {c : Cache} {id : JobId} {job : Job} {event : Event}

theorem steps_append (c : Cache) (before after : List Event) :
    c.steps (before ++ after) = (c.steps before).steps after := List.foldl_append

theorem steps_snoc (c : Cache) (before : List Event) (event : Event) :
    c.steps (before ++ [event]) = (c.steps before).step event := steps_append c before [event]

theorem answer?_eq_some_iff {answer : Answer} :
    c.answer? id = some answer ↔ ∃ job, c.jobs[id]? = some job ∧ job.stage = .finished answer := by
  unfold answer? stage?
  cases hj : c.jobs[id]? with
  | none => simp
  | some job => cases hs : job.stage <;> simp [hs]

theorem getElem?_start (hj : c.jobs[id]? = some job) (request : Request) (token : Token) :
    (c.step (.start request token)).jobs[id]? = some job := by
  have hlt := (List.getElem?_eq_some_iff.1 hj).1
  exact (List.getElem?_append_left hlt).trans hj

theorem step_absent (hj : c.jobs[id]? = none) (hm : event.Moves id) : c.step event = c := by
  cases event with
  | run j =>
    obtain rfl : j = id := hm
    simp only [step, run, hj]
  | expire j =>
    obtain rfl : j = id := hm
    simp [step, expire, stage?, hj]
  | _ => exact hm.elim

namespace LocksSound

/-- The jobs after an event: there may be a new one, and one that is there may be at another stage. -/
theorem jobs_step (h : c.LocksSound) (event : Event) :
    (c.step event).jobs = c.jobs ∨
    (∃ request token, event = .start request token ∧
      (c.step event).jobs = c.jobs ++ [{ request, token : Job }]) ∨
    ∃ j job stage, event.Moves j ∧ c.jobs[j]? = some job ∧
      ∀ i, (c.step event).jobs[i]? = if i = j then some { job with stage } else c.jobs[i]? := by
  have heffect := h.effect event
  generalize c.step event = c' at heffect ⊢
  cases heffect with
  | start hevent => exact .inr (.inl ⟨_, _, hevent, rfl⟩)
  | turn hm hj => exact .inr (.inr ⟨_, _, _, hm, hj, getElem?_settle hj _ _ _ _ _⟩)
  | skip hm hj => exact .inr (.inr ⟨_, _, _, hm, hj, getElem?_settle hj _ c.cancelled c.sweeper _ _⟩)
  | complete | aside => exact .inl rfl

/-- A job keeps its request and its token. -/
theorem job_step (h : c.LocksSound) (hj : c.jobs[id]? = some job) (event : Event) :
    ∃ stage, (c.step event).jobs[id]? = some { job with stage } := by
  rcases h.jobs_step event with heq | ⟨request, token, rfl, -⟩ | ⟨j, job', stage, -, hj', hjobs⟩
  · exact ⟨job.stage, by rw [heq, hj]⟩
  · exact ⟨job.stage, getElem?_start hj request token⟩
  · rw [hjobs]
    by_cases hid : id = j
    · subst hid
      rw [hj] at hj'
      cases hj'
      exact ⟨stage, if_pos rfl⟩
    · exact ⟨job.stage, by rw [if_neg hid, hj]⟩

theorem job_steps (h : c.LocksSound) (hj : c.jobs[id]? = some job) (events : List Event) :
    ∃ stage, (c.steps events).jobs[id]? = some { job with stage } := by
  induction events generalizing c job with
  | nil => exact ⟨job.stage, hj⟩
  | cons event events ih =>
    obtain ⟨stage, hstage⟩ := h.job_step hj event
    obtain ⟨stage', hstage'⟩ := ih (h.step event) hstage
    exact ⟨stage', hstage'⟩

/-- A job has the request and the token with which it is found later. -/
theorem job_before (h : c.LocksSound) (hj : c.jobs[id]? = some job) {events : List Event} {later : Job}
    (hlater : (c.steps events).jobs[id]? = some later) : job.request = later.request ∧ job.token = later.token := by
  obtain ⟨stage, hstage⟩ := h.job_steps hj events
  obtain rfl : later = { job with stage } := Option.some.inj (hlater.symm.trans hstage)
  exact ⟨rfl, rfl⟩

theorem cancelled_step (h : c.LocksSound) {token : Token} (hc : c.isCancelled token = true) (event : Event) :
    (c.step event).isCancelled token = true := by
  rw [isCancelled, List.contains_iff_mem] at hc ⊢
  have heffect := h.effect event
  generalize c.step event = c' at heffect ⊢
  cases heffect with
  | start => exact hc
  | turn _ _ _ hmore => exact hmore hc
  | skip | complete => exact hc
  | aside hmore => exact hmore hc

/-- A job that is there after an event and was not there before has just been started. -/
theorem job_new (h : c.LocksSound) (hnone : c.jobs[id]? = none) (hj : (c.step event).jobs[id]? = some job) :
    event = .start job.request job.token ∧ job.stage = .ready := by
  rcases h.jobs_step event with heq | ⟨request, token, rfl, heq⟩ | ⟨j, job', stage, -, hj', hjobs⟩
  · rw [heq, hnone] at hj
    cases hj
  · rw [heq, List.getElem?_append_right (List.getElem?_eq_none_iff.1 hnone)] at hj
    have hlast := List.mem_of_getElem? hj
    rw [List.mem_singleton.1 hlast]
    exact ⟨rfl, rfl⟩
  · rw [hjobs] at hj
    by_cases hid : id = j
    · rw [hid, hj'] at hnone
      cases hnone
    · rw [if_neg hid, hnone] at hj
      cases hj

/-- A job is left alone by all events but its turns. -/
theorem job_same (h : c.LocksSound) (hj : c.jobs[id]? = some job) (hm : ¬event.Moves id) :
    (c.step event).jobs[id]? = some job := by
  rcases h.jobs_step event with heq | ⟨request, token, rfl, -⟩ | ⟨j, job', stage, hmoves, -, hjobs⟩
  · rw [heq, hj]
  · exact getElem?_start hj request token
  · have hid : id ≠ j := by
      rintro rfl
      exact hm hmoves
    rw [hjobs, if_neg hid, hj]

end LocksSound

/-- Nothing happens any more to a job that is over. -/
theorem step_over (hj : c.jobs[id]? = some job) {answer : Answer} (hs : job.stage = .finished answer)
    (hm : event.Moves id) : c.step event = c := by
  cases event with
  | run j =>
    obtain rfl : j = id := hm
    simp only [step, run, hj, hs]
  | expire j =>
    obtain rfl : j = id := hm
    simp [step, expire, stage?_eq hj, hs, Stage.sweeping?]
  | _ => exact hm.elim

namespace LocksSound

theorem over_step (h : c.LocksSound) (hj : c.jobs[id]? = some job) {answer : Answer}
    (hs : job.stage = .finished answer) (event : Event) : (c.step event).jobs[id]? = some job := by
  by_cases hm : event.Moves id
  · rw [step_over hj hs hm, hj]
  · exact h.job_same hj hm

theorem over_steps (h : c.LocksSound) (hj : c.jobs[id]? = some job) {answer : Answer}
    (hs : job.stage = .finished answer) (events : List Event) : (c.steps events).jobs[id]? = some job := by
  induction events generalizing c with
  | nil => exact hj
  | cons event events ih => exact ih (h.step event) (h.over_step hj hs event)

end LocksSound

end Cache

end RoutedCache

import RoutedCache.Proofs.Cache.Course

/-!
# Failed calls

A call that is over has the answer of its course: that of the first check that fails, or success.  If it has
failed, it has left all stores as they were, and the counters as well, but for a miss (`Cache.fails_first_check`).
-/

namespace RoutedCache

/-- The counters after an error. -/
def Counters.missed (counters : Counters) (error : CacheError) : Counters :=
  { counters with misses := counters.misses + if error.isNotFound then 1 else 0 }

theorem Counters.count_failed (counters : Counters) (error : CacheError) :
    counters.count (.failed error) = counters.missed error := by
  cases error <;> rfl

/-! ### Calls that change no store -/

theorem performEntries_same {entries : KeyMap Record} {call : StoreCall}
    (h : (performEntries entries call).1 ≠ .done) : (performEntries entries call).2 = entries := by
  cases call with
  | put => exact absurd rfl h
  | delete => exact absurd rfl h
  | get => rfl
  | list => rfl

theorem performDocuments_same {documents : Documents} {call : StoreCall}
    (h : (performDocuments documents call).1 ≠ .done) : (performDocuments documents call).2 = documents := by
  cases call with
  | put => exact absurd rfl h
  | delete => exact absurd rfl h
  | get key =>
    simp only [performDocuments]
    split <;> rfl
  | list => rfl

/-- Only a call that is acknowledged changes a store. -/
theorem Store.perform_same {store : Store} {call : StoreCall} (h : (store.perform call).1 ≠ .done) :
    (store.perform call).2 = store := by
  cases store with
  | memory entries => exact congrArg memory (performEntries_same h)
  | document file collection opened documents =>
    exact congrArg (document file collection opened) (performDocuments_same h)
  | faulty faults entries =>
    unfold perform at h ⊢
    dsimp only at h ⊢
    split
    · rfl
    · next hrefusal =>
      rw [hrefusal] at h
      exact congrArg (faulty faults) (performEntries_same h)

theorem Shelf.store_perform {shelf : Shelf} {call : StoreCall} (h : (shelf.perform call).1 ≠ .done) :
    (shelf.perform call).2.store = shelf.store := by
  unfold Shelf.perform at h ⊢
  split at h
  · rfl
  · exact Store.perform_same h

/-- The stores on shelves. -/
def storesOn (shelves : List Shelf) : List Store := shelves.map (·.store)

def Cache.stores (c : Cache) : List Store := storesOn c.shelves

theorem storesOn_set {shelves : List Shelf} {store : Nat} {shelf shelf' : Shelf}
    (hs : shelves[store]? = some shelf) (h : shelf'.store = shelf.store) :
    storesOn (shelves.set store shelf') = storesOn shelves := by
  obtain ⟨hlt, heq⟩ := List.getElem?_eq_some_iff.1 hs
  unfold storesOn
  apply List.ext_getElem?
  intro i
  rw [List.getElem?_map, List.getElem?_map, List.getElem?_set]
  by_cases hi : store = i
  · subst hi
    rw [if_pos rfl, if_pos hlt, hs, Option.map_some, Option.map_some, h]
  · rw [if_neg hi]

variable {c : Cache} {id : JobId} {job : Job} {old new : Stage} {shelves : List Shelf}

/-- The stage is not that of a job whose call has just been acknowledged. -/
def Stage.Unacknowledged (stage : Stage) : Prop := ∀ store visit, stage ≠ .returned store visit .done

theorem Visits.stores {store : Nat} {visit : Visit} {shelf shelf' : Shelf}
    (hv : Visits c id store shelf visit new shelf')
    (h : new.Unacknowledged) : shelf'.store = shelf.store := by
  cases hv with
  | hold => rfl
  | pause => rfl
  | call =>
    refine Shelf.store_perform fun hdone => h store visit ?_
    rw [hdone]
  | done => rfl

/-- A transition without an acknowledged call leaves the stores as they are. -/
theorem Transition.stores (ht : Transition c id job old new shelves) (h : new.Unacknowledged) :
    storesOn shelves = c.stores := by
  cases ht with
  | aside => rfl
  | refuse _ hs => exact storesOn_set hs rfl
  | cancel _ hs => exact storesOn_set hs rfl
  | queue _ hs => exact storesOn_set hs rfl
  | enter _ hs _ _ _ hv => exact storesOn_set hs (hv.stores h)
  | grant hs _ _ hv => exact storesOn_set hs (hv.stores h)
  | @call store visit _ _ _ hs =>
    refine storesOn_set hs (Shelf.store_perform fun hdone => h store visit ?_)
    rw [hdone]
  | stay hs _ hv => exact storesOn_set hs (hv.stores h)
  | leave _ hs => exact storesOn_set hs rfl

/-! ### Turns of a call -/

namespace Course.Fits

variable {course : Course} {event : Event}

/-- A turn of a call that makes no acknowledged call leaves the stores as they are. -/
theorem stores_turn (h : Fits c id course) (hcall : ∀ job, c.jobs[id]? = some job → job.request.IsCall)
    (hm : event.Moves id) (hd : .done ∉ (course.note id c event).replies) : (c.step event).stores = c.stores := by
  cases hj : c.jobs[id]? with
  | none => rw [Cache.step_absent hj hm]
  | some job =>
    rcases h.turn hj (hcall job hj) hm with ⟨hsame, -⟩ | ⟨new, shelves, cancelled, sweeper, -, ht, heq, hnote⟩
    · rw [hsame]
    · rw [heq]
      refine ht.stores ?_
      rintro store visit rfl
      rw [hnote] at hd
      exact hd (List.mem_append_right _ (List.mem_singleton.2 rfl))

private theorem tally_eq {mounts : MountTable Nat} {request : Request}
    (h : Course.Sound mounts request old course) (hover : ∀ answer, old ≠ .finished answer) (counters : Counters)
    (new : Stage) : counters.tally old new = match new with
      | .finished answer => counters.count answer
      | _ => counters := by
  cases h with
  | finished => exact absurd rfl (hover _)
  | _ => cases new <;> rfl

/-- A turn of a call that does not end it changes no counter, and the one that ends it counts the answer. -/
theorem counters_turn (h : Fits c id course) (hcall : ∀ job, c.jobs[id]? = some job → job.request.IsCall)
    (hm : event.Moves id) :
    ((c.step event).counters = c.counters ∧ (c.step event).answer? id = c.answer? id) ∨
    ∃ answer, event = .run id ∧ (c.step event).answer? id = some answer ∧
      (c.step event).counters = c.counters.count answer := by
  cases hj : c.jobs[id]? with
  | none =>
    rw [Cache.step_absent hj hm]
    exact .inl ⟨rfl, rfl⟩
  | some job =>
    have hsound := h.present job hj (hcall job hj)
    rcases h.turn hj (hcall job hj) hm with ⟨hsame, -⟩ | ⟨new, shelves, cancelled, sweeper, hrun, ht, heq, -⟩
    · rw [hsame]
      exact .inl ⟨rfl, rfl⟩
    · have hstage := Cache.stage?_settle hj shelves cancelled sweeper job.stage new id
      rw [if_pos rfl, ← heq] at hstage
      have hcounters : (c.step event).counters = c.counters.tally job.stage new := by
        rw [heq]
        rfl
      rw [tally_eq hsound ht.inside.1] at hcounters
      have hopen : c.answer? id = none := by
        unfold Cache.answer?
        rw [Cache.stage?_eq hj]
        split
        · next answer hover => exact absurd (Option.some.inj hover) (ht.inside.1 answer)
        · rfl
      cases new with
      | finished answer =>
        right
        exact ⟨answer, hrun, by rw [Cache.answer?, hstage], hcounters⟩
      | _ =>
        left
        exact ⟨hcounters, by rw [Cache.answer?, hstage, hopen]⟩

end Course.Fits

namespace Cache

/-- Only turns of a job answer it. -/
theorem LocksSound.answer?_same (h : c.LocksSound) {event : Event} (hm : ¬event.Moves id) :
    (c.step event).answer? id = c.answer? id := by
  cases hj : c.jobs[id]? with
  | some job =>
    unfold answer?
    rw [stage?_eq hj, stage?_eq (h.job_same hj hm)]
  | none =>
    have hbefore : c.answer? id = none := by simp [answer?, stage?, hj]
    rw [hbefore, Option.eq_none_iff_forall_ne_some]
    intro answer hanswer
    obtain ⟨job, hnew, hs⟩ := answer?_eq_some_iff.1 hanswer
    rw [(h.job_new hj hnew).2] at hs
    cases hs

/-- A job that is a call later is one now. -/
theorem LocksSound.isCall_before (h : c.LocksSound) {events : List Event}
    (hcall : ∀ job, (c.steps events).jobs[id]? = some job → job.request.IsCall) (job : Job)
    (hj : c.jobs[id]? = some job) : job.request.IsCall := by
  obtain ⟨stage, hstage⟩ := h.job_steps hj events
  have hlast := hcall _ hstage
  exact hlast

/-- The job is answered by one of its turns, which changes the counters; its other turns do not. -/
structure EndsAt (c : Cache) (id : JobId) (answer : Answer) (change : Counters → Counters)
    (before after : List Event) : Prop where
  pending : (c.steps before).answer? id = none
  answered : (c.steps (before ++ [.run id])).answer? id = some answer
  counted : (c.steps (before ++ [.run id])).counters = change (c.steps before).counters
  others : ∀ before' event after', before ++ .run id :: after = before' ++ event :: after' → event.Moves id →
    before' ≠ before → (c.steps (before' ++ [event])).counters = (c.steps before').counters

/-- A call that is over was answered by one of its turns. -/
theorem ends_at {course : Course} (h : course.Fits c id) {events : List Event} {answer : Answer}
    (hcall : ∀ job, (c.steps events).jobs[id]? = some job → job.request.IsCall)
    (hopen : c.answer? id = none) (hend : (c.steps events).answer? id = some answer) :
    ∃ before after, events = before ++ .run id :: after ∧ c.EndsAt id answer (·.count answer) before after := by
  induction events generalizing c course with
  | nil =>
    rw [show c.steps [] = c from rfl, hopen] at hend
    cases hend
  | cons event events ih =>
    have hcall' : ∀ job, c.jobs[id]? = some job → job.request.IsCall := h.locks.isCall_before hcall
    cases hnext : (c.step event).answer? id with
    | none =>
      obtain ⟨before, after, rfl, hends⟩ := ih (h.step event) hcall hnext hend
      refine ⟨event :: before, after, rfl, hends.pending, hends.answered, hends.counted, ?_⟩
      intro before' event' after' heq hm hne
      cases before' with
      | nil =>
        obtain ⟨rfl, -⟩ := List.cons.inj heq
        rcases h.counters_turn hcall' hm with ⟨hcounters, -⟩ | ⟨answer', -, hanswer, -⟩
        · exact hcounters
        · rw [hnext] at hanswer
          cases hanswer
      | cons first before' =>
        obtain ⟨rfl, hrest⟩ := List.cons.inj heq
        refine hends.others before' event' after' hrest hm ?_
        rintro rfl
        exact hne rfl
    | some answer' =>
      have hm : event.Moves id := by
        by_cases hm : event.Moves id
        · exact hm
        · rw [h.locks.answer?_same hm, hopen] at hnext
          cases hnext
      rcases h.counters_turn hcall' hm with ⟨-, hsame⟩ | ⟨answer'', rfl, hanswer, hcounters⟩
      · rw [hsame, hopen] at hnext
        cases hnext
      · -- From this turn on the job is over, so its later turns do nothing.
        obtain ⟨job, hj, hs⟩ := answer?_eq_some_iff.1 hanswer
        have hlocks := h.locks.step (.run id)
        have hlast : (c.steps (.run id :: events)).answer? id = some answer'' :=
          answer?_eq_some_iff.2 ⟨job, hlocks.over_steps hj hs events, hs⟩
        rw [hend] at hlast
        cases hlast
        refine ⟨[], events, rfl, hopen, hanswer, hcounters, ?_⟩
        intro before' event' after' heq hm' hne
        cases before' with
        | nil => exact absurd rfl hne
        | cons first before' =>
          obtain ⟨rfl, -⟩ := List.cons.inj heq
          have hover := step_over (hlocks.over_steps hj hs before') hs hm'
          rw [steps_snoc]
          exact congrArg Cache.counters hover

/-- What a call leaves behind that has failed: the stores are as they were, and only a miss is counted. -/
structure Untouched (first : Cache) (events : List Event) (id : JobId) (error : CacheError) : Prop where
  stores : ∀ before event after, events = before ++ event :: after → event.Moves id →
    (first.steps (before ++ [event])).stores = (first.steps before).stores
  counted : ∃ before after, events = before ++ .run id :: after ∧
    first.EndsAt id (.failed error) (·.missed error) before after

private theorem isCall_of_jobs (hj : c.jobs[id]? = some job) (hcall : job.request.IsCall) (job' : Job)
    (hj' : c.jobs[id]? = some job') : job'.request.IsCall := by
  rw [hj] at hj'
  cases hj'
  exact hcall

section Ends

variable {first : Cache} (hu : first.Unused) {events : List Event}
  (hj : (first.steps events).jobs[id]? = some job) (hcall : job.request.IsCall)

include hu hj hcall

theorem sound_course : Course.Sound first.mounts job.request job.stage (first.course events id) := by
  have hfits : (first.course events id).Fits (first.steps events) id := (Course.Fits.of_unused hu id).steps events
  have hsound := hfits.present job hj hcall
  rwa [(LocksSound.of_unused hu).mounts_steps events] at hsound

/-- The turns of a call without acknowledged calls leave the stores as they are. -/
theorem stores_of_unacknowledged (hd : .done ∉ (first.course events id).replies) {before after : List Event}
    {event : Event} (hsplit : events = before ++ event :: after) (hm : event.Moves id) :
    (first.steps (before ++ [event])).stores = (first.steps before).stores := by
  have hcalls := isCall_of_jobs hj hcall
  subst hsplit
  have hbefore := (Course.Fits.of_unused hu id).steps before
  rw [steps_append] at hcalls
  rw [steps_snoc]
  refine hbefore.stores_turn (hbefore.locks.isCall_before hcalls) hm fun hmem => hd ?_
  -- The replies so far are replies of the whole course, which has no acknowledgement among them.
  have hreplies : ((Course.along id {} first before).note id (first.steps before) event).replies <+:
      (first.course (before ++ event :: after) id).replies := by
    rw [course, Course.along_append]
    exact Course.replies_along ..
  exact hreplies.subset hmem

theorem untouched_of_failed {error : CacheError} (hs : job.stage = .finished (.failed error)) :
    first.Untouched events id error := by
  have hsound := sound_course hu hj hcall
  rw [hs] at hsound
  constructor
  · intro before event after hsplit hm
    cases hsound with
    | finished _ hd => exact stores_of_unacknowledged hu hj hcall (hd error rfl) hsplit hm
  · have hopen : first.answer? id = none := by simp [answer?, stage?, hu.jobs]
    obtain ⟨before, after, hsplit, hends⟩ := ends_at (Course.Fits.of_unused hu id) (isCall_of_jobs hj hcall) hopen
      (answer?_eq_some_iff.2 ⟨job, hj, hs⟩)
    refine ⟨before, after, hsplit, hends.pending, hends.answered, ?_, hends.others⟩
    rw [hends.counted, Counters.count_failed]

end Ends

/-- A call that is over has the answer of the first check that fails on its course, or of success if none does, and
a call that has failed has changed no store, and no counter but that of the misses. -/
theorem fails_first_check {first : Cache} (hu : first.Unused) (events : List Event) {id : JobId} {job : Job}
    (hj : (first.steps events).jobs[id]? = some job) (hcall : job.request.IsCall) :
    (∀ answer, job.stage = .finished answer →
      answer = (first.course events id).verdict first.mounts job.request) ∧
    ∀ error, job.stage = .finished (.failed error) → first.Untouched events id error := by
  constructor
  · intro answer hs
    have hsound := sound_course hu hj hcall
    rw [hs] at hsound
    cases hsound with
    | finished h => exact h
  · exact fun error hs => untouched_of_failed hu hj hcall hs

/-- A read misses, and a write fails the check of its options before those of its mount and its token. -/
theorem fails_first_check_miss :
    let first := fresh ⟨KeyMap.empty.insert "a" 0⟩ [.memory .empty] 0 0 (.ofInstant default)
    let write : Request := .write "b/k" [7] [.eol default, .eol default]
    let events : List Event := [.start (.read "/a/x/") .never, .start write (.call 1), .cancel (.call 1), .run 0,
      .run 0, .run 1]
    first.Unused ∧
      (first.steps events).jobs[0]? =
        some { request := .read "/a/x/", stage := .finished (.failed (.notFound "a/x")) } ∧
      first.Untouched events 0 (.notFound "a/x") ∧
      (first.steps events).jobs[1]? =
        some { request := write, token := .call 1, stage := .finished (.failed .duplicateExpiry) } ∧
      (first.course events 1).verdict first.mounts write = .failed .duplicateExpiry ∧
      (first.course events 1).replies = [] := by
  intro first write events
  have hu : first.Unused := unused_fresh ..
  have hread : (first.steps events).jobs[0]? =
      some { request := .read "/a/x/", stage := .finished (.failed (.notFound "a/x")) } := by decide +kernel
  have hwrite : (first.steps events).jobs[1]? =
      some { request := write, token := .call 1, stage := .finished (.failed .duplicateExpiry) } := by
    decide +kernel
  have huntouched := (fails_first_check hu events hread trivial).2 _ rfl
  have hverdict := (fails_first_check hu events hwrite trivial).1 _ rfl
  exact ⟨hu, hread, huntouched, hwrite, hverdict.symm, by decide +kernel⟩

end Cache

end RoutedCache

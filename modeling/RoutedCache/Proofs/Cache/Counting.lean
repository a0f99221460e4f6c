import Mathlib.Algebra.BigOperators.Intervals
import RoutedCache.Proofs.Cache.SingleUse
import RoutedCache.Proofs.Cache.Tracking

/-!
# What the counters count

Each counter grows by what the answers to the jobs and the reports of the sweeper's rounds bring to it
(`Counters.Weighs`), and a round that was called for brings its report with the answer.  So a counter is the sum over
all jobs of what they have brought (`Cache.booked_steps`), and with what a request may be answered it is a number of
jobs with certain answers (`Cache.counters_exact`).
-/

namespace RoutedCache

/-- The reports of the rounds that have come to their end, the latest first. -/
def reportsOf (rounds : List Round) : List SweepReport := rounds.filterMap fun round => round.ended.map (·.2)

/-- A read that was answered with data. -/
def Request.hit : Request → Answer → Bool
  | .read _, .record _ => true
  | _, _ => false

/-- A read that was answered that there is nothing. -/
def Request.missed : Request → Answer → Bool
  | .read _, .failed (.notFound _) => true
  | _, _ => false

/-- A read that was answered with a record to be read once. -/
def Request.burned : Request → Answer → Bool
  | .read _, .record record => record.metadata.burnAfterReading
  | _, _ => false

/-- A write that was answered without an error. -/
def Request.wrote : Request → Answer → Bool
  | .write .., .written => true
  | .write .., .dropped => true
  | _, _ => false

/-- A delete that was answered without an error. -/
def Request.removed : Request → Answer → Bool
  | .delete _, .deleted => true
  | _, _ => false

/-- One of the stores has acknowledged a put to the job. -/
def Ledger.hasPut (ledger : Ledger) (stores : Nat) (id : JobId) : Bool :=
  (List.range stores).any fun s => (ledger s).any fun made =>
    match made.call, made.reply with
    | .put _, .done => made.job = id
    | _, _ => false

/-- The answer of a job that is over. -/
def Job.answer? (job : Job) : Option Answer :=
  match job.stage with
  | .finished answer => some answer
  | _ => none

/-- The jobs that are over with such a request and answer. -/
def Cache.finished (c : Cache) (p : JobId → Request → Answer → Bool) : Finset JobId :=
  (Finset.range c.jobs.length).filter fun id =>
    (c.jobs[id]?.bind fun job => job.answer?.map (p id job.request)).getD false

/-- The answers that a counter tells of. -/
def Answer.IsCounted : Answer → Prop
  | .written | .dropped | .record _ | .deleted | .swept _ | .failed (.notFound _) => True
  | _ => False

/-! ### What an answer brings to a counter -/

namespace Counters

def add (a b : Counters) : Counters where
  hits := a.hits + b.hits
  misses := a.misses + b.misses
  writes := a.writes + b.writes
  skippedWrites := a.skippedWrites + b.skippedWrites
  burned := a.burned + b.burned
  deletes := a.deletes + b.deletes
  evicted := a.evicted + b.evicted
  evictionFailures := a.evictionFailures + b.evictionFailures

/-- What an answer brings to the counters. -/
def share (answer : Answer) : Counters := count {} answer

theorem count_eq_add (counters : Counters) (answer : Answer) :
    counters.count answer = counters.add (share answer) := by
  cases answer with
  | failed error => cases error <;> rfl
  | record record =>
    simp only [count, share, add, Nat.zero_add]
    rfl
  | swept report =>
    simp only [count, share, add, Nat.zero_add]
    rfl
  | _ => rfl

/-- A counter, as one of the fields. -/
structure Additive (f : Counters → Nat) : Prop where
  zero : f {} = 0
  add : ∀ a b, f (a.add b) = f a + f b

theorem Additive.count {f : Counters → Nat} (h : Additive f) (counters : Counters) (answer : Answer) :
    f (counters.count answer) = f counters + f (share answer) := by
  rw [count_eq_add, h.add]

theorem count_of_not_isCounted {answer : Answer} (h : ¬answer.IsCounted) (counters : Counters) :
    counters.count answer = counters := by
  cases answer with
  | failed error =>
    cases error with
    | notFound => exact absurd trivial h
    | _ => rfl
  | replies => rfl
  | ended => rfl
  | broken => rfl
  | _ => exact absurd trivial h

end Counters

namespace Request.Admits

variable {request : Request} {answer : Answer}

theorem share_hits (h : request.Admits answer) :
    (Counters.share answer).hits = if request.hit answer then 1 else 0 := by
  cases answer with
  | record =>
    obtain ⟨key, rfl⟩ := h.of_record
    rfl
  | failed error => cases error <;> cases request <;> rfl
  | _ => cases request <;> rfl

theorem share_misses (h : request.Admits answer) :
    (Counters.share answer).misses = if request.missed answer then 1 else 0 := by
  cases answer with
  | failed error =>
    cases error with
    | notFound =>
      obtain ⟨key, rfl⟩ := h.of_notFound
      rfl
    | _ => cases request <;> rfl
  | _ => cases request <;> rfl

theorem share_writes (h : request.Admits answer) :
    (Counters.share answer).writes = if request.wrote answer && decide (answer = .written) then 1 else 0 := by
  cases answer with
  | written =>
    obtain ⟨key, data, options, rfl⟩ := h.of_written
    rfl
  | failed error => cases error <;> cases request <;> rfl
  | _ => cases request <;> rfl

theorem share_skippedWrites (h : request.Admits answer) : (Counters.share answer).skippedWrites =
    if request.wrote answer && !decide (answer = .written) then 1 else 0 := by
  cases answer with
  | dropped =>
    obtain ⟨key, data, options, rfl⟩ := h.of_dropped
    rfl
  | failed error => cases error <;> cases request <;> rfl
  | _ => cases request <;> rfl

theorem share_burned (h : request.Admits answer) :
    (Counters.share answer).burned = if request.burned answer then 1 else 0 := by
  cases answer with
  | record record =>
    obtain ⟨key, rfl⟩ := h.of_record
    exact Nat.zero_add _
  | failed error => cases error <;> cases request <;> rfl
  | _ => cases request <;> rfl

theorem share_deletes (h : request.Admits answer) :
    (Counters.share answer).deletes = if request.removed answer then 1 else 0 := by
  cases answer with
  | deleted =>
    obtain ⟨key, rfl⟩ := h.of_deleted
    rfl
  | failed error => cases error <;> cases request <;> rfl
  | _ => cases request <;> rfl

end Request.Admits

/-- Only the reports bring something to the counters of the sweeps. -/
theorem Counters.share_eq_zero {answer : Answer} (h : ∀ report, answer ≠ .swept report) :
    (share answer).evicted = 0 ∧ (share answer).evictionFailures = 0 := by
  cases answer with
  | swept report => exact absurd rfl (h report)
  | failed error => cases error <;> exact ⟨rfl, rfl⟩
  | _ => exact ⟨rfl, rfl⟩

/-- What a job that is over has brought to a counter, a report left out. -/
def Job.weight (f : Counters → Nat) (job : Job) : Nat :=
  match job.stage with
  | .finished (.swept _) => 0
  | .finished answer => f (.share answer)
  | _ => 0

/-- What a job and its rounds have brought to a counter. -/
def booked (f : Counters → Nat) (job : Option Job) (rounds : List Round) : Nat :=
  (job.map (·.weight f)).getD 0 + ((reportsOf rounds).map fun report => f (.share (.swept report))).sum

theorem Counters.tally_eq {old new : Stage} (counters : Counters) (hold : ∀ answer, old ≠ .finished answer)
    (hidle : ∀ cycle due, old = .between cycle → new ≠ .idle due) :
    counters.tally old new = match new with
      | .finished answer => counters.count answer
      | _ => counters := by
  cases old with
  | finished answer => exact absurd rfl (hold answer)
  | between cycle =>
    cases new with
    | idle due => exact absurd rfl (hidle cycle due rfl)
    | _ => rfl
  | _ => cases new <;> rfl

section Turn

variable {c : Cache} {id : JobId} {job : Job} {turn : Nat} {new : Stage} {shelves : List Shelf}
  {rounds rounds' : List Round}

/-- A job that has been answered with a report has made the round of this report and no other. -/
theorem Tracks.reports_of_swept {table : List (String × Nat)} {request : Request} {cancelled : Bool}
    {report : SweepReport} (h : Tracks table request cancelled (.finished (.swept report)) rounds)
    (hs : request.Stands (.finished (.swept report))) : reportsOf rounds = [report] := by
  cases h with
  | away hr => exact absurd (.inl (Request.Admits.of_swept hs)) hr
  | resting _ hstage => rcases hstage with ⟨due, heq⟩ | heq <;> cases heq
  | within _ hk => cases hk
  | swept _ hn => simp [reportsOf, hn]

/-- A sweep that was called for has no report before its answer. -/
private theorem Tracks.reports_of_open {table : List (String × Nat)} {request : Request} {cancelled : Bool}
    {stage : Stage} (h : Tracks table request cancelled stage rounds) (hr : request = .sweep)
    (ho : ∀ answer, stage ≠ .finished answer) : reportsOf rounds = [] := by
  cases h with
  | away => rfl
  | ready => rfl
  | resting hr' =>
    rw [hr] at hr'
    cases hr'
  | between _ _ _ h1 =>
    rw [h1 hr]
    rfl
  | within _ _ _ _ _ h1 =>
    rw [h1 hr]
    rfl
  | swept => exact absurd rfl (ho _)
  | broken => exact absurd rfl (ho _)

/-- What a turn brings to the counters: nothing, an answer without a report, or the report of a round. -/
inductive Books (counters counters' : Counters) (turn : Nat) (new : Stage) (rounds rounds' : List Round) : Prop
  | nothing (hn : ∀ answer, new ≠ .finished answer) (hr : reportsOf rounds' = reportsOf rounds)
      (hc : counters' = counters)
  | answer {answer} (hn : new = .finished answer) (ha : ∀ report, answer ≠ .swept report)
      (hr : reportsOf rounds' = reportsOf rounds) (hc : counters' = counters.count answer)
  | report {report begun passes older} (hn : new = .finished (.swept report) ∨ ∃ due, new = .idle due)
      (hl : rounds' = { begun, passes, ended := some (turn, report) } :: older)
      (hr : reportsOf rounds' = report :: reportsOf rounds) (hc : counters' = counters.count (.swept report))

theorem Tracks.books (h : Tracks c.mounts.mounts job.request (c.isCancelled job.token) job.stage rounds)
    (hs : job.request.Stands job.stage) (turn : Nat) (ht : Transition c id job job.stage new shelves)
    (counters : Counters) : Books counters (counters.tally job.stage new) turn new rounds
      (Round.turned turn c.clock.read? job.stage new rounds) := by
  have hnext := h.turned turn ht
  generalize Round.turned turn c.clock.read? job.stage new rounds = rounds' at hnext ⊢
  have hopen := ht.inside.1
  -- A turn that ends no round brings its answer, which is no report.
  have hsame (hr : reportsOf rounds' = reportsOf rounds)
      (hidle : ∀ cycle due, job.stage = .between cycle → new ≠ .idle due) :
      Books counters (counters.tally job.stage new) turn new rounds rounds' := by
    have htally := Counters.tally_eq counters hopen hidle
    cases new with
    | finished answer =>
      refine .answer rfl ?_ hr htally
      rintro report rfl
      have hnew := hs.step ht
      have hreports := hnext.tracks.reports_of_swept hnew
      rw [hr, h.reports_of_open (Request.Admits.of_swept hnew) hopen] at hreports
      cases hreports
    | _ => exact .nothing (by simp) hr htally
  have hnot {cycle : SweepCycle} (hk : job.stage.cycle? = none) : job.stage ≠ .between cycle :=
    Stage.not_between hk cycle
  cases hnext.logged with
  | outside ho => exact hsame rfl fun cycle due heq => absurd heq (hnot ho)
  | start ho => exact hsame rfl fun cycle due heq => absurd heq (hnot ho)
  | @finish cycle begun passes older ho _ _ hn =>
    refine .report hn rfl rfl ?_
    rw [ho]
    rcases hn with rfl | ⟨due, rfl⟩ <;> rfl
  | enter _ _ hg =>
    refine hsame rfl fun cycle due _ heq => ?_
    rw [heq] at hg
    cases hg with
    | within hk => cases hk
  | within hk =>
    refine hsame rfl fun cycle due heq _ => ?_
    rw [heq] at hk
    cases hk
  | expire hk =>
    refine hsame rfl fun cycle due heq _ => ?_
    rw [heq] at hk
    cases hk

/-- The end of the time for a mount brings nothing. -/
theorem Tracks.books_expired (h : Tracks c.mounts.mounts job.request (c.isCancelled job.token) job.stage rounds)
    (turn : Nat) (hx : Expiry c id job.stage new shelves) (counters : Counters) :
    Books counters counters turn new rounds (Round.expired job.stage new rounds) := by
  have hnext := h.expired turn hx
  generalize Round.expired job.stage new rounds = rounds' at hnext ⊢
  cases hx with
  | @skip store cycle shelf hk =>
    refine .nothing (by simp) ?_ rfl
    have hcycle := Stage.cycle?_of_sweeping? hk
    cases hnext.logged with
    | outside => rfl
    | start => rfl
    | finish ho =>
      rw [ho] at hk
      cases hk
    | enter => rfl
    | within => rfl
    | expire => rfl

/-- A turn brings to a counter what it brings to the sum. -/
theorem Books.booked {counters counters' : Counters} (h : Books counters counters' turn new rounds rounds')
    {f : Counters → Nat} (hf : Counters.Additive f)
    (hopen : ∀ answer, job.stage ≠ .finished answer) :
    f counters' + booked f (some job) rounds =
      f counters + booked f (some { job with stage := new }) rounds' := by
  have hbefore : job.weight f = 0 := by
    unfold Job.weight
    split
    next heq => exact absurd heq (hopen _)
    next heq => exact absurd heq (hopen _)
    next => rfl
  cases h with
  | nothing hn hr hc =>
    have hafter : Job.weight f { job with stage := new } = 0 := by
      unfold Job.weight
      split
      next heq => exact absurd heq (hn _)
      next heq => exact absurd heq (hn _)
      next => rfl
    simp [RoutedCache.booked, hbefore, hafter, hr, hc]
  | @answer answer hn ha hr hc =>
    have hafter : Job.weight f { job with stage := new } = f (.share answer) := by
      unfold Job.weight
      rw [hn]
      cases answer with
      | swept report => exact absurd rfl (ha report)
      | _ => rfl
    simp only [RoutedCache.booked, Option.map_some, Option.getD_some, hbefore, hafter, hr, hc, hf.count]
    omega
  | report hn hl hr hc =>
    have hafter : Job.weight f { job with stage := new } = 0 := by
      rcases hn with rfl | ⟨due, rfl⟩ <;> rfl
    simp only [RoutedCache.booked, Option.map_some, Option.getD_some, hbefore, hafter, hr, hc, hf.count,
      List.map_cons, List.sum_cons]
    omega

end Turn

/-! ### Runs -/

theorem sum_range_change {n i : Nat} {g g' : Nat → Nat} (hi : i < n) (h : ∀ j, j ≠ i → g' j = g j) :
    ∑ j ∈ Finset.range n, g' j + g i = ∑ j ∈ Finset.range n, g j + g' i := by
  have hmem := Finset.mem_range.2 hi
  have hrest : ∑ j ∈ (Finset.range n).erase i, g' j = ∑ j ∈ (Finset.range n).erase i, g j :=
    Finset.sum_congr rfl fun j hj => h j (Finset.ne_of_mem_erase hj)
  rw [← Finset.add_sum_erase _ g' hmem, ← Finset.add_sum_erase _ g hmem, hrest]
  omega

namespace Cache

variable {c : Cache} {first : Cache}

/-- The turns of the jobs start no job. -/
theorem LocksSound.length_jobs (h : c.LocksSound) {event : Event} {id : JobId} (hm : event.Moves id) :
    (c.step event).jobs.length = c.jobs.length := by
  have heffect := h.effect event
  generalize c.step event = c' at heffect ⊢
  cases heffect with
  | start hevent =>
    rw [hevent] at hm
    exact hm.elim
  | turn => simp [settle, setStage]
  | skip => simp [settle, setStage]
  | complete | aside => rfl

theorem LocksSound.counters_same (h : c.LocksSound) {event : Event} (hm : ∀ id, ¬event.Moves id) :
    (c.step event).counters = c.counters := by
  have heffect := h.effect event
  generalize c.step event = c' at heffect ⊢
  cases heffect with
  | start => rfl
  | turn hmoves => exact absurd hmoves (hm _)
  | skip hmoves => exact absurd hmoves (hm _)
  | complete | aside => rfl

/-- What all jobs and their rounds have brought to a counter. -/
def bookings (first : Cache) (f : Counters → Nat) (events : List Event) : Nat :=
  ∑ id ∈ Finset.range (first.steps events).jobs.length,
    booked f (first.steps events).jobs[id]? (first.rounds events id)

/-- The turn of a job brings to a counter what it brings to the sum over all jobs. -/
private theorem booked_turn (hu : first.Unused) {f : Counters → Nat} (hf : Counters.Additive f)
    (events : List Event) {event : Event} {id : JobId} (hm : event.Moves id) :
    f (first.steps (events ++ [event])).counters + first.bookings f events =
      f (first.steps events).counters + first.bookings f (events ++ [event]) := by
  have hlocks := (LocksSound.of_unused hu).steps events
  have hmounts := (LocksSound.of_unused hu).mounts_steps events
  unfold bookings
  rw [rounds_snoc, steps_snoc]
  cases hj : (first.steps events).jobs[id]? with
  | none =>
    have hnote : (first.rounds events).note events.length (first.steps events) event = first.rounds events := by
      funext j
      by_cases hid : event.Moves j
      · rw [hm.unique hid] at hj
        exact note_absent hj
      · exact note_other hid
    rw [step_absent hj hm, hnote]
  | some job =>
    have hlt := (List.getElem?_eq_some_iff.1 hj).1
    have hothers (j : JobId) (hne : j ≠ id) :
        booked f ((first.steps events).step event).jobs[j]?
          ((first.rounds events).note events.length (first.steps events) event j) =
        booked f (first.steps events).jobs[j]? (first.rounds events j) := by
      have hmoves : ¬event.Moves j := fun h => hne (hm.unique h).symm
      rw [note_other hmoves]
      cases hother : (first.steps events).jobs[j]? with
      | some other => rw [hlocks.job_same hother hmoves]
      | none =>
        have hlength := hlocks.length_jobs hm
        have hnone : ((first.steps events).step event).jobs[j]? = none := by
          rw [List.getElem?_eq_none_iff, hlength]
          exact List.getElem?_eq_none_iff.1 hother
        rw [hnone]
    rw [hlocks.length_jobs hm]
    have hsum := sum_range_change hlt hothers
    have hstands := stands_steps hu events id job hj
    have hturn : f ((first.steps events).step event).counters + booked f (some job) (first.rounds events id) =
        f (first.steps events).counters + booked f ((first.steps events).step event).jobs[id]?
          ((first.rounds events).note events.length (first.steps events) event id) := by
      have htracks := tracks_steps hu events hj
      rw [← hmounts] at htracks
      cases hlocks.note_cases hj event events.length (first.rounds events) with
      | same hsame hnext hr => rw [hsame hm, hj, hr]
      | turn _ ht _ hc hnext hr =>
        rw [hnext, hr, hc]
        exact (htracks.books hstands events.length ht _).booked hf ht.inside.1
      | skip _ hx _ hc hnext hr =>
        have hopen : ∀ answer, job.stage ≠ .finished answer := by
          intro answer heq
          rw [heq] at hx
          cases hx with
          | skip hk => cases hk
        rw [hnext, hr, hc]
        exact (htracks.books_expired events.length hx _).booked hf hopen
    rw [hj] at hsum
    omega

/-- A counter is the sum of what all jobs and their rounds have brought to it. -/
theorem booked_steps (hu : first.Unused) (hcounters : first.counters = {}) {f : Counters → Nat}
    (hf : Counters.Additive f) (events : List Event) :
    f (first.steps events).counters = first.bookings f events := by
  induction events using List.reverseRecOn with
  | nil =>
    show f first.counters = ∑ id ∈ Finset.range first.jobs.length, _
    rw [hcounters, hf.zero, hu.jobs]
    rfl
  | append_singleton events event ih =>
    have hlocks := (LocksSound.of_unused hu).steps events
    by_cases hm : ∃ id, event.Moves id
    · obtain ⟨id, hm⟩ := hm
      have hturn := booked_turn hu hf events hm
      omega
    · have hnone (id : JobId) : ¬event.Moves id := fun h => hm ⟨id, h⟩
      have hnote : (first.rounds events).note events.length (first.steps events) event = first.rounds events :=
        funext fun id => note_other (hnone id)
      have hjobs : first.bookings f (events ++ [event]) = first.bookings f events := by
        unfold bookings
        rw [rounds_snoc, steps_snoc, hnote]
        rcases hlocks.jobs_step event with heq | ⟨request, token, -, heq⟩ | ⟨j, _, _, hmoves, -⟩
        · rw [heq]
        · rw [heq, List.length_append, List.length_singleton, Finset.sum_range_succ]
          have hnew : booked f ((first.steps events).jobs ++
              [{ request, token : Job }])[(first.steps events).jobs.length]?
              (first.rounds events (first.steps events).jobs.length) = 0 := by
            rw [List.getElem?_concat_length, rounds_absent hu (List.getElem?_eq_none_iff.2 (Nat.le_refl _))]
            rfl
          rw [hnew, Nat.add_zero]
          refine Finset.sum_congr rfl fun j hj => ?_
          rw [List.getElem?_append_left (Finset.mem_range.1 hj)]
        · exact absurd hmoves (hnone j)
      rw [hjobs, steps_snoc, hlocks.counters_same hnone, ih]

/-! ### Puts -/

/-- The calls that a run makes are made to stores of the cache. -/
theorem LocksSound.lt_of_made (h : c.LocksSound) (events : List Event) (ledger : Ledger) {s : Nat} {made : Made}
    (hm : made ∈ ledger.along c events s) : made ∈ ledger s ∨ s < c.shelves.length := by
  induction events generalizing c ledger with
  | nil => exact .inl hm
  | cons event events ih =>
    have hnext := h.step event
    have hlength := h.length_steps [event]
    rcases ih hnext _ hm with hm | hlt
    · cases event with
      | run id =>
        rcases Ledger.mem_enter hm with hm | ⟨-, hmade⟩
        · exact .inl hm
        · obtain ⟨stage, hstage, hmade⟩ := Option.bind_eq_some_iff.1 hmade
          have hclaim : (c.step (.run id)).claim? id = some s :=
            Option.bind_eq_some_iff.2 ⟨stage, hstage, Stage.claim?_of_inside? (Stage.inside?_of_made? hmade)⟩
          have hlt := hnext.placed id s hclaim
          rw [show (c.step (.run id)).shelves.length = c.shelves.length from hlength] at hlt
          exact .inr hlt
      | _ => exact .inl hm
    · rw [show (c.step event).shelves.length = c.shelves.length from hlength] at hlt
      exact .inr hlt

theorem hasPut_iff {ledger : Ledger} {stores : Nat} {id : JobId} : ledger.hasPut stores id = true ↔
    ∃ s < stores, ∃ entry, ⟨id, .put entry, .done⟩ ∈ ledger s := by
  simp only [Ledger.hasPut, List.any_eq_true, List.mem_range]
  constructor
  · rintro ⟨s, hs, ⟨job, call, reply⟩, hm, hput⟩
    dsimp only at hput
    split at hput
    next entry =>
      obtain rfl : job = id := of_decide_eq_true hput
      exact ⟨s, hs, entry, hm⟩
    next => cases hput
  · rintro ⟨s, hs, entry, hm⟩
    exact ⟨s, hs, _, hm, by simp⟩

/-- A write that was answered without an error has had its put acknowledged, or it was dropped without one. -/
theorem hasPut_of_wrote (hu : first.Unused) (hcounters : first.counters = {}) (events : List Event) {id : JobId}
    {job : Job} (hj : (first.steps events).jobs[id]? = some job) {answer : Answer}
    (hs : job.stage = .finished answer) (hw : job.request.wrote answer = true) :
    (first.ledger events).hasPut (first.steps events).shelves.length id = decide (answer = .written) := by
  have haccount := (Account.of_unused hu hcounters).steps events
  have hledger : Ledger.along (fun _ => []) first events = first.ledger events := rfl
  rw [hledger] at haccount
  have hcall : job.request.IsCall := by
    cases hr : job.request with
    | write => trivial
    | _ =>
      rw [hr] at hw
      cases hw
  have hkind : answer = .written ∨ answer = .dropped := by
    unfold Request.wrote at hw
    split at hw
    next => exact .inl rfl
    next => exact .inr rfl
    next => cases hw
  rw [Bool.eq_iff_iff, hasPut_iff, decide_eq_true_iff]
  cases haccount.jobs id job hj with
  | other hnot => exact absurd hcall hnot
  | @call store later mine before _ htrail hp =>
    rw [hs] at htrail
    cases htrail with
    | finished hout =>
      constructor
      · rintro ⟨s, -, entry, hm⟩
        obtain ⟨-, hmine⟩ := hp.mem hm rfl
        cases hout with
        | written => rfl
        | _ => simp at hmine
      · rintro rfl
        cases hout with
        | @written entry =>
          have hm : ⟨id, .put entry, .done⟩ ∈ first.ledger events store := by
            rw [hp.calls]
            simp
          have hlt : store < (first.steps events).shelves.length := by
            have hmade := (LocksSound.of_unused hu).lt_of_made events (fun _ => []) hm
            rw [(LocksSound.of_unused hu).length_steps events]
            exact hmade.resolve_left List.not_mem_nil
          exact ⟨store, hlt, entry, hm⟩
        | refused hplain => exact absurd rfl hplain.1
        | missed hplain => exact absurd rfl hplain.1

/-! ### The counters of a run -/

/-- A counter that counts answers of one kind is the number of the jobs that have got them. -/
private theorem card_finished (hu : first.Unused) (hcounters : first.counters = {}) {f : Counters → Nat}
    (hf : Counters.Additive f) (hreport : ∀ report, f (.share (.swept report)) = 0) (events : List Event)
    {p : JobId → Request → Answer → Bool}
    (hp : ∀ id job answer, (first.steps events).jobs[id]? = some job → job.stage = .finished answer →
      f (.share answer) = if p id job.request answer then 1 else 0) :
    f (first.steps events).counters = ((first.steps events).finished p).card := by
  rw [booked_steps hu hcounters hf, bookings, finished, Finset.card_filter]
  refine Finset.sum_congr rfl fun id hid => ?_
  have hnone (reports : List SweepReport) : (reports.map fun report => f (.share (.swept report))).sum = 0 := by
    simp [hreport]
  rw [booked, hnone, Nat.add_zero]
  cases hj : (first.steps events).jobs[id]? with
  | none => rfl
  | some job =>
    have hanswer := hp id job
    obtain ⟨request, token, stage⟩ := job
    cases stage with
    | finished answer =>
      replace hanswer := hanswer answer hj rfl
      cases answer with
      | swept report =>
        rw [hreport] at hanswer
        exact hanswer
      | _ => exact hanswer
    | _ => rfl

/-- What the counters tell of a run. -/
structure CountersExact (first : Cache) (events : List Event) : Prop where
  hits : (first.steps events).counters.hits =
    ((first.steps events).finished fun _ request answer => request.hit answer).card
  misses : (first.steps events).counters.misses =
    ((first.steps events).finished fun _ request answer => request.missed answer).card
  /-- Writes that were answered without an error after a put. -/
  writes : (first.steps events).counters.writes =
    ((first.steps events).finished fun id request answer => request.wrote answer &&
      (first.ledger events).hasPut (first.steps events).shelves.length id).card
  /-- Writes that were answered without an error and without a put. -/
  skippedWrites : (first.steps events).counters.skippedWrites =
    ((first.steps events).finished fun id request answer => request.wrote answer &&
      !(first.ledger events).hasPut (first.steps events).shelves.length id).card
  burned : (first.steps events).counters.burned =
    ((first.steps events).finished fun _ request answer => request.burned answer).card
  deletes : (first.steps events).counters.deletes =
    ((first.steps events).finished fun _ request answer => request.removed answer).card
  evicted : (first.steps events).counters.evicted = ∑ id ∈ Finset.range (first.steps events).jobs.length,
    ((reportsOf (first.rounds events id)).map (·.deleted)).sum
  evictionFailures : (first.steps events).counters.evictionFailures =
    ∑ id ∈ Finset.range (first.steps events).jobs.length,
      ((reportsOf (first.rounds events id)).map (·.failed)).sum
  /-- A sweep that was called for has one report, its answer. -/
  swept : ∀ id report, (first.steps events).answer? id = some (.swept report) →
    reportsOf (first.rounds events id) = [report]
  /-- The counters change only when a job gets an answer of these kinds and when the sweeper ends a round. -/
  only : ∀ before event after, events = before ++ event :: after →
    (first.steps (before ++ [event])).counters = (first.steps before).counters ∨
    ∃ id, event = .run id ∧
      ((∃ answer, (first.steps before).answer? id = none ∧
          (first.steps (before ++ [event])).answer? id = some answer ∧ answer.IsCounted ∧
          (first.steps (before ++ [event])).counters = (first.steps before).counters.count answer) ∨
        ∃ report due, (first.steps (before ++ [event])).stage? id = some (.idle due) ∧
          reportsOf (first.rounds (before ++ [event]) id) = report :: reportsOf (first.rounds before id) ∧
          (first.steps (before ++ [event])).counters = (first.steps before).counters.count (.swept report))

private theorem stands_finished (hu : first.Unused) {events : List Event} {id : JobId} {job : Job} {answer : Answer}
    (hj : (first.steps events).jobs[id]? = some job) (hs : job.stage = .finished answer) :
    job.request.Admits answer := by
  have hstands := stands_steps hu events id job hj
  rw [hs] at hstands
  exact hstands

/-- A counter of the sweeps is the sum of what the reports bring to it. -/
private theorem sum_reports (hu : first.Unused) (hcounters : first.counters = {}) {f : Counters → Nat}
    (hf : Counters.Additive f) (hanswer : ∀ answer, (∀ report, answer ≠ .swept report) → f (.share answer) = 0)
    (events : List Event) :
    f (first.steps events).counters = ∑ id ∈ Finset.range (first.steps events).jobs.length,
      ((reportsOf (first.rounds events id)).map fun report => f (.share (.swept report))).sum := by
  rw [booked_steps hu hcounters hf, bookings]
  refine Finset.sum_congr rfl fun id _ => ?_
  rw [booked]
  cases hj : (first.steps events).jobs[id]? with
  | none => exact Nat.zero_add _
  | some job =>
    have hweight : job.weight f = 0 := by
      unfold Job.weight
      split
      next => rfl
      next answer hswept _ => exact hanswer _ fun report heq => hswept report heq
      next => rfl
    simp [hweight]

/-- An event that changes the counters brings them an answer or the report of a round of the sweeper. -/
private theorem counters_step (hu : first.Unused) (before : List Event) (event : Event) :
    (first.steps (before ++ [event])).counters = (first.steps before).counters ∨
    ∃ id, event = .run id ∧
      ((∃ answer, (first.steps before).answer? id = none ∧
          (first.steps (before ++ [event])).answer? id = some answer ∧ answer.IsCounted ∧
          (first.steps (before ++ [event])).counters = (first.steps before).counters.count answer) ∨
        ∃ report due, (first.steps (before ++ [event])).stage? id = some (.idle due) ∧
          reportsOf (first.rounds (before ++ [event]) id) = report :: reportsOf (first.rounds before id) ∧
          (first.steps (before ++ [event])).counters =
            (first.steps before).counters.count (.swept report)) := by
  have hlocks := (LocksSound.of_unused hu).steps before
  have hmounts := (LocksSound.of_unused hu).mounts_steps before
  rw [rounds_snoc, steps_snoc]
  by_cases hm : ∃ id, event.Moves id
  · obtain ⟨id, hm⟩ := hm
    cases hj : (first.steps before).jobs[id]? with
    | none =>
      left
      rw [step_absent hj hm]
    | some job =>
      have hstands := stands_steps hu before id job hj
      have htracks := tracks_steps hu before hj
      rw [← hmounts] at htracks
      cases hlocks.note_cases hj event before.length (first.rounds before) with
      | same hsame =>
        left
        rw [hsame hm]
      | skip _ _ _ hc => exact .inl hc
      | @turn new _ he ht _ hc hnext hr =>
        have hopen : (first.steps before).answer? id = none := by
          rw [Option.eq_none_iff_forall_ne_some]
          intro answer hanswer
          obtain ⟨job', hj', hs⟩ := answer?_eq_some_iff.1 hanswer
          cases hj.symm.trans hj'
          exact ht.inside.1 answer hs
        have hnow {answer : Answer} (hn : new = .finished answer) :
            ((first.steps before).step event).answer? id = some answer :=
          answer?_eq_some_iff.2 ⟨_, hnext, hn⟩
        cases htracks.books hstands before.length ht (first.steps before).counters with
        | nothing _ _ hsame => exact .inl (hc.trans hsame)
        | @answer answer hn _ _ hcount =>
          by_cases hcounted : answer.IsCounted
          · exact .inr ⟨id, he, .inl ⟨answer, hopen, hnow hn, hcounted, hc.trans hcount⟩⟩
          · left
            rw [hc, hcount, Counters.count_of_not_isCounted hcounted]
        | @report report _ _ _ hn _ hreports hcount =>
          rcases hn with hn | ⟨due, hn⟩
          · exact .inr ⟨id, he, .inl ⟨_, hopen, hnow hn, trivial, hc.trans hcount⟩⟩
          · rw [← hr] at hreports
            refine .inr ⟨id, he, .inr ⟨report, due, ?_, hreports, hc.trans hcount⟩⟩
            rw [stage?_eq hnext, hn]
  · left
    exact hlocks.counters_same fun id h => hm ⟨id, h⟩

/-- In every run the counters account for the answers and the reports, and nothing else changes them. -/
theorem counters_exact {first : Cache} (hu : first.Unused) (hcounters : first.counters = {})
    (events : List Event) : first.CountersExact events where
  hits := card_finished hu hcounters ⟨rfl, fun _ _ => rfl⟩ (fun _ => rfl) events fun _ _ _ hj hs =>
    (stands_finished hu hj hs).share_hits
  misses := card_finished hu hcounters ⟨rfl, fun _ _ => rfl⟩ (fun _ => rfl) events fun _ _ _ hj hs =>
    (stands_finished hu hj hs).share_misses
  writes := by
    refine card_finished hu hcounters ⟨rfl, fun _ _ => rfl⟩ (fun _ => rfl) events fun id job answer hj hs => ?_
    rw [(stands_finished hu hj hs).share_writes]
    cases hw : job.request.wrote answer with
    | false => rfl
    | true => rw [hasPut_of_wrote hu hcounters events hj hs hw]
  skippedWrites := by
    refine card_finished hu hcounters ⟨rfl, fun _ _ => rfl⟩ (fun _ => rfl) events fun id job answer hj hs => ?_
    rw [(stands_finished hu hj hs).share_skippedWrites]
    cases hw : job.request.wrote answer with
    | false => rfl
    | true => rw [hasPut_of_wrote hu hcounters events hj hs hw]
  burned := card_finished hu hcounters ⟨rfl, fun _ _ => rfl⟩ (fun _ => rfl) events fun _ _ _ hj hs =>
    (stands_finished hu hj hs).share_burned
  deletes := card_finished hu hcounters ⟨rfl, fun _ _ => rfl⟩ (fun _ => rfl) events fun _ _ _ hj hs =>
    (stands_finished hu hj hs).share_deletes
  evicted := by
    have hsum := sum_reports hu hcounters ⟨rfl, fun _ _ => rfl⟩
      (fun _ h => (Counters.share_eq_zero h).1) events
    simpa [Counters.share, Counters.count] using hsum
  evictionFailures := by
    have hsum := sum_reports hu hcounters ⟨rfl, fun _ _ => rfl⟩
      (fun _ h => (Counters.share_eq_zero h).2) events
    simpa [Counters.share, Counters.count] using hsum
  swept id report hanswer := by
    obtain ⟨job, hj, hs⟩ := answer?_eq_some_iff.1 hanswer
    have hstands := stands_steps hu events id job hj
    have htracks := tracks_steps hu events hj
    rw [hs] at hstands htracks
    exact htracks.reports_of_swept hstands
  only before event after hsplit := counters_step hu before event

/-- Every kind of answer is counted once: a record is written, read and gone, another one is dropped, a sweep removes
an old record and the sweeper finds nothing to do. -/
theorem counters_exact_all_kinds :
    let old : Record := ⟨[], { createdAt := default, notValidAfter := some default }⟩
    let first := fresh ⟨KeyMap.empty.insert "a" 0⟩ [.memory (KeyMap.empty.insert "a/o" old)] 0 1000
      (.ofInstant default)
    let events : List Event := [.start (.write "a/k" [7] [.burnAfterReading]) .never,
      .start (.read "a/k") .never, .start (.read "a/k") .never, .start (.write "a/d" [] [.eol default]) .never,
      .start (.delete "a/k") .never, .start .sweep .never, .start .sweeper .shutdown,
      .run 0, .run 0, .run 1, .run 1, .run 1, .run 2, .run 2, .run 3, .run 4, .run 4,
      .run 5, .run 5, .run 5, .run 5, .run 5, .run 6, .run 6, .run 6, .run 6, .run 6]
    first.Unused ∧ first.counters = {} ∧ CountersExact first events ∧
      (first.steps events).counters =
        { hits := 1, misses := 1, writes := 1, skippedWrites := 1, burned := 1, deletes := 1, evicted := 1 } := by
  intro old first events
  have hu : first.Unused := unused_fresh ..
  exact ⟨hu, rfl, counters_exact hu rfl events, by decide +kernel⟩

end Cache

end RoutedCache

import RoutedCache.Proofs.Cache.Checks
import RoutedCache.Proofs.Cache.Lives
import RoutedCache.Proofs.Cache.Trail

/-!
# The course of a call

The course of a call tells what the call met on its way: the clock at its beginning, why it was refused the lock,
the replies of the store and the clock at its look-up.  With the checks before the lock it decides the answer
(`Course.verdict`): the first check that fails, or success.  Every transition of the call keeps the course in step
with its stage (`Course.Sound.step`), so a call that is over has the answer of its course.
-/

namespace RoutedCache

structure Course where
  began : Clock := default
  /-- Why the lock was not obtained. -/
  refused : Option CacheError := none
  /-- The replies of the store in their order. -/
  replies : List Reply := []
  /-- What the clock showed when a read looked at the reply to its first call. -/
  seen : Option Instant := none
deriving DecidableEq

/-- The store that serves the key of a call. -/
def Request.store? (mounts : MountTable Nat) : Request → Option Nat
  | .write key _ _ | .read key | .delete key => (mounts.resolve (trimSlashes key)).toOption.map (·.2)
  | _ => none

/-- Why a job that asks for the lock of a store at present does not obtain it. -/
def Cache.lockError? (c : Cache) (token : Token) (store : Nat) : Option CacheError :=
  match c.shelves[store]?.bind Shelf.lockRefusal? with
  | some fault => some (.backend fault)
  | none => if c.isCancelled token then some .cancelled else none

namespace Course

def lockCheck (course : Course) : Option Answer := course.refused.map .failed

/-- The call with this number must not fail. -/
def faultCheck (course : Course) (n : Nat) : Option Answer :=
  match course.replies[n]? with
  | some (.failed fault) => some (.failed (.backend fault))
  | _ => none

/-- What the first call has found. -/
def found? (course : Course) : Option KeyRecord :=
  match course.replies.head? with
  | some (.found entry) => entry
  | _ => none

/-- A record must have been found, and it must be valid when it is looked at. -/
def missCheck (course : Course) (key : String) : Option Answer :=
  match course.found?, course.seen with
  | none, _ => some (.failed (.notFound (trimSlashes key)))
  | some _, none => some .broken
  | some entry, some now =>
    if entry.record.isValidAt now then none else some (.failed (.notFound (trimSlashes key)))

/-- The checks from the lock on, in their order. -/
def checks (course : Course) : Request → List (Option Answer)
  | .write _ _ _ => [course.lockCheck, course.faultCheck 0]
  | .read key => [course.lockCheck, course.faultCheck 0, course.missCheck key, course.faultCheck 1]
  | .delete _ => [course.lockCheck, course.faultCheck 0]
  | _ => []

/-- The answer if no check fails. -/
def success (course : Course) : Request → Answer
  | .write _ _ _ => .written
  | .read key =>
    match course.found? with
    | some entry => .record entry.record
    | none => .failed (.notFound (trimSlashes key))
  | .delete _ => .deleted
  | _ => .ended

/-- The answer of the first check that fails, or success. -/
def verdict (course : Course) (mounts : MountTable Nat) (request : Request) : Answer :=
  (firstFailure (request.checks mounts course.began ++ course.checks request)).getD (course.success request)

def answered (course : Course) (reply : Reply) : Course := { course with replies := course.replies ++ [reply] }

/-- The course with what a run of the job looks at. -/
def looked (course : Course) (c : Cache) (job : Job) : Stage → Course
  | .ready =>
    { course with
      began := c.clock
      refused := (job.request.store? c.mounts).bind (c.lockError? job.token) }
  | .queued _ _ => { course with refused := if c.isCancelled job.token then some .cancelled else none }
  | .returned _ (.get _) _ => { course with seen := c.clock.read? }
  | _ => course

/-- The course with the reply to the call that a run has made. -/
def replied (course : Course) : Stage → Course
  | .returned _ _ reply => course.answered reply
  | _ => course

/-- The course of a job after an event. -/
def note (id : JobId) (course : Course) (c : Cache) : Event → Course
  | .run j =>
    if j = id then
      match c.jobs[id]?, (c.run id).stage? id with
      | some job, some stage => (course.looked c job job.stage).replied stage
      | _, _ => course
    else course
  | _ => course

def along (id : JobId) (course : Course) (c : Cache) : List Event → Course
  | [] => course
  | event :: events => (course.note id c event).along id (c.step event) events

end Course

/-- The course of a job in a run from its first event on. -/
def Cache.course (c : Cache) (events : List Event) (id : JobId) : Course := Course.along id {} c events

/-! ### Where a call stands -/

namespace Course

/-- The visit that a call is about to make in a store. -/
inductive Due (mounts : MountTable Nat) (request : Request) (course : Course) (store : Nat) : Visit → Prop
  | first {visit} (hr : request.route mounts course.began = .ok (store, visit)) (hn : course.replies = []) :
      Due mounts request course store visit
  | burn {key stored entry} (hr : (Request.read key).route mounts course.began = .ok (store, .get stored))
      (hreq : request = .read key) (hf : course.replies = [.found (some entry)])
      (hm : course.missCheck key = none) :
      Due mounts request course store (.burn stored entry.record)

/-- What the course of a call is at a stage. -/
inductive Sound (mounts : MountTable Nat) (request : Request) : Stage → Course → Prop
  | ready {course : Course} (hn : course.replies = []) : Sound mounts request .ready course
  | queued {store visit} {course : Course} (hr : request.route mounts course.began = .ok (store, visit))
      (hn : course.replies = []) : Sound mounts request (.queued store visit) course
  | pausing {store visit due} {course : Course} (hl : course.refused = none)
      (hd : course.Due mounts request store visit) : Sound mounts request (.pausing store visit due) course
  | returned {store visit reply call held} {course : Course} (hl : course.refused = none)
      (hd : course.Due mounts request store visit) (hc : visit.call? = some call)
      (hf : Reply.Fair held reply call) : Sound mounts request (.returned store visit reply) (course.answered reply)
  | finished {answer} {course : Course} (h : answer = course.verdict mounts request)
      (hd : ∀ error, answer = .failed error → .done ∉ course.replies) :
      Sound mounts request (.finished answer) course

variable {mounts : MountTable Nat} {request : Request} {course : Course} {store : Nat} {visit : Visit}

/-! ### Verdicts -/

theorem verdict_of_error (course : Course) (hcall : request.IsCall) {answer : Answer}
    (h : request.route mounts course.began = .error answer) : course.verdict mounts request = answer := by
  rw [verdict, firstFailure_append, Request.firstFailure_of_error hcall h]
  rfl

theorem verdict_of_ok (course : Course) (hcall : request.IsCall) {place : Nat × Visit}
    (h : request.route mounts course.began = .ok place) :
    course.verdict mounts request = (firstFailure (course.checks request)).getD (course.success request) := by
  rw [verdict, firstFailure_append, Request.firstFailure_of_ok hcall h]
  rfl

theorem verdict_of_refused (course : Course) (hcall : request.IsCall) {place : Nat × Visit}
    (h : request.route mounts course.began = .ok place) {error : CacheError}
    (hl : course.refused = some error) : course.verdict mounts request = .failed error := by
  rw [verdict_of_ok course hcall h]
  have hlock : course.lockCheck = some (.failed error) := by rw [lockCheck, hl, Option.map_some]
  cases request with
  | write => simp [checks, hlock]
  | read => simp [checks, hlock]
  | delete => simp [checks, hlock]
  | _ => exact hcall.elim

theorem verdict_of_locked (course : Course) (hcall : request.IsCall) {place : Nat × Visit}
    (h : request.route mounts course.began = .ok place) (hl : course.refused = none) :
    course.verdict mounts request =
      (firstFailure (course.checks request).tail).getD (course.success request) := by
  rw [verdict_of_ok course hcall h]
  have hlock : course.lockCheck = none := by rw [lockCheck, hl, Option.map_none]
  cases request with
  | write => simp [checks, hlock]
  | read => simp [checks, hlock]
  | delete => simp [checks, hlock]
  | _ => exact hcall.elim

/-- A call whose lock was refused is over with the reason. -/
theorem Sound.refused (course : Course) (hcall : request.IsCall)
    (hr : request.route mounts course.began = .ok (store, visit))
    (hn : course.replies = []) {error : CacheError} (hl : course.refused = some error) :
    Sound mounts request (visit.fail error).stage course := by
  have hfail := (Request.firstVisit hr hcall).fail error
  rw [hfail]
  refine .finished (verdict_of_refused course hcall hr hl).symm fun _ _ => ?_
  rw [hn]
  exact List.not_mem_nil

/-- The store that a call comes to is the one that serves its key. -/
theorem store?_of_ok (hcall : request.IsCall) {clock : Clock}
    (h : request.route mounts clock = .ok (store, visit)) :
    request.store? mounts = some store := by
  cases Request.routed h with
  | @write key data options entry path store hfresh hmount =>
    rcases Request.freshEntry_cases clock.read? key data options with ⟨answer, herror, -⟩ | ⟨record, hok, -⟩
    · rw [hfresh] at herror
      cases herror
    · rw [hfresh] at hok
      rw [Except.ok.inj hok] at hmount
      simp only [Request.store?]
      rw [hmount]
      rfl
  | read hkey hmount =>
    rw [normalizeKey_eq_ok hkey] at hmount
    simp only [Request.store?]
    rw [hmount]
    rfl
  | delete hkey hmount =>
    rw [normalizeKey_eq_ok hkey] at hmount
    simp only [Request.store?]
    rw [hmount]
    rfl
  | calls => exact hcall.elim
  | hold => exact hcall.elim

/-! ### Replies -/

/-- A read looks at the record that it has found as the check of its course does. -/
theorem readOn_cases (course : Course) (key : String) :
    (∃ answer, Visit.readOn (trimSlashes key) course.seen course.found? = .answer answer ∧
      course.missCheck key = some answer) ∨
    ∃ entry, course.found? = some entry ∧ course.missCheck key = none ∧
      Visit.readOn (trimSlashes key) course.seen course.found? =
        if entry.record.metadata.burnAfterReading then .stay (.burn (trimSlashes key) entry.record)
        else .answer (.record entry.record) := by
  unfold missCheck
  cases hfound : course.found? with
  | none =>
    left
    exact ⟨_, rfl, rfl⟩
  | some entry =>
    cases hseen : course.seen with
    | none =>
      left
      exact ⟨_, rfl, rfl⟩
    | some now =>
      cases hvalid : entry.record.isValidAt now with
      | false =>
        left
        refine ⟨.failed (.notFound (trimSlashes key)), ?_, ?_⟩
        · simp [Visit.readOn, hvalid]
        · simp [hvalid]
      | true =>
        right
        refine ⟨entry, rfl, ?_, ?_⟩
        · simp [hvalid]
        · simp [Visit.readOn, hvalid]

/-- What follows on a reply to a call: it is over as its course says, or it makes one more visit. -/
inductive Goes (mounts : MountTable Nat) (request : Request) (course : Course) (store : Nat) : Visit.Turn → Prop
  | ends {answer : Answer} (h : Sound mounts request (.finished answer) course) :
      Goes mounts request course store (.answer answer)
  | stays {visit' : Visit} (hd : course.Due mounts request store visit') (hl : course.refused = none) :
      Goes mounts request course store (.stay visit')

section First

variable (hcall : request.IsCall) (hr : request.route mounts course.began = .ok (store, visit))
  (hn : course.replies = []) (hl : course.refused = none)

include hcall hr hn hl

/-- A call whose first call to the store fails is over. -/
private theorem Sound.of_failed (fault : StoreFault) :
    Sound mounts request (.finished (.failed (.backend fault))) (course.answered (.failed fault)) := by
  have hfault : (course.answered (.failed fault)).faultCheck 0 = some (.failed (.backend fault)) := by
    simp [faultCheck, answered, hn]
  refine .finished ?_ fun _ _ => by simp [answered, hn]
  rw [verdict_of_locked (course.answered (.failed fault)) hcall hr hl]
  cases request with
  | write => simp [checks, hfault]
  | read => simp [checks, hfault]
  | delete => simp [checks, hfault]
  | _ => exact hcall.elim

/-- A call that has no check after that of its one reply is a success with the acknowledgement. -/
private theorem Sound.of_done
    (hlast : ((course.answered .done).checks request).tail = [(course.answered .done).faultCheck 0])
    (hsuccess : ∀ error, (course.answered .done).success request ≠ .failed error) :
    Sound mounts request (.finished ((course.answered .done).success request)) (course.answered .done) := by
  have hfault : (course.answered .done).faultCheck 0 = none := by simp [faultCheck, answered, hn]
  refine .finished ?_ fun error heq => absurd heq (hsuccess error)
  rw [verdict_of_locked (course.answered .done) hcall hr hl, hlast]
  simp [hfault]

end First

variable {call : StoreCall} {reply : Reply} {held : String → Option KeyRecord} {key : String}

/-- A read looks at its record. -/
private theorem Goes.read (hr : (Request.read key).route mounts course.began = .ok (store, .get (trimSlashes key)))
    (hn : course.replies = []) (hl : course.refused = none) (entry : Option KeyRecord) :
    Goes mounts (.read key) (course.answered (.found entry)) store
      (Visit.readOn (trimSlashes key) course.seen entry) := by
  generalize hnext : course.answered (.found entry) = next
  have hreplies : next.replies = [.found entry] := by rw [← hnext]; simp [answered, hn]
  have hfound : next.found? = entry := by simp [found?, hreplies]
  have hfault (n : Nat) : next.faultCheck n = none := by cases n <;> simp [faultCheck, hreplies]
  have hnodone : .done ∉ next.replies := by simp [hreplies]
  have hrefused : next.refused = none := by rw [← hnext]; exact hl
  have hroute : (Request.read key).route mounts next.began = .ok (store, .get (trimSlashes key)) := by
    rw [← hnext]; exact hr
  have hcall : (Request.read key).IsCall := trivial
  have hverdict := verdict_of_locked next hcall hroute hrefused
  have hseen : course.seen = next.seen := by rw [← hnext]; rfl
  rw [hseen, ← hfound]
  rcases next.readOn_cases key with ⟨answer, hread, hmiss⟩ | ⟨record, hrecord, hmiss, hread⟩
  · rw [hread]
    refine .ends (.finished ?_ fun _ _ => hnodone)
    rw [hverdict]
    simp [checks, hfault, hmiss]
  · rw [hread]
    split
    next => exact .stays (.burn hroute rfl (by rw [hreplies, ← hfound, hrecord]) hmiss) hrefused
    next =>
      refine .ends (.finished ?_ fun _ _ => hnodone)
      rw [hverdict]
      simp [checks, hfault, hmiss, success, hrecord]

/-- A read that has found a record to burn is over with the reply to the deletion. -/
private theorem Goes.burn {stored : String} {entry : KeyRecord}
    (hr : (Request.read key).route mounts course.began = .ok (store, .get stored)) (hl : course.refused = none)
    (hfirst : course.replies = [.found (some entry)]) (hm : course.missCheck key = none)
    (hf : reply = .done ∨ ∃ fault, reply = .failed fault) (clock : Clock) (cancelled : Bool) :
    Goes mounts (.read key) (course.answered reply) store
      ((Visit.burn stored entry.record).next clock cancelled reply) := by
  have hreplies : (course.answered reply).replies = [.found (some entry), reply] := by simp [answered, hfirst]
  have hfound : (course.answered reply).found? = some entry := by simp [found?, hreplies]
  have hmiss : (course.answered reply).missCheck key = none := by
    have hbefore : course.found? = some entry := by simp [found?, hfirst]
    rw [missCheck, hfound, ← hbefore]
    exact hm
  have hget : (course.answered reply).faultCheck 0 = none := by simp [faultCheck, hreplies]
  have hcall : (Request.read key).IsCall := trivial
  have hverdict := verdict_of_locked (course.answered reply) hcall hr hl
  rcases hf with rfl | ⟨fault, rfl⟩
  · have hdelete : (course.answered .done).faultCheck 1 = none := by simp [faultCheck, hreplies]
    refine .ends (.finished (.trans ?_ hverdict.symm) (by simp))
    simp [checks, hget, hmiss, hdelete, success, hfound]
  · have hdelete : (course.answered (.failed fault)).faultCheck 1 = some (.failed (.backend fault)) := by
      simp [faultCheck, hreplies]
    refine .ends (.finished (.trans ?_ hverdict.symm) fun _ _ => by simp [hreplies])
    simp [checks, hget, hmiss, hdelete]

/-- A run follows the reply to a call as its course says. -/
theorem Due.next (hcall : request.IsCall) (hd : course.Due mounts request store visit)
    (hl : course.refused = none) (hc : visit.call? = some call) (hf : Reply.Fair held reply call) (c : Cache)
    (job : Job) (cancelled : Bool) :
    Goes mounts request ((course.answered reply).looked c job (.returned store visit reply)) store
      (visit.next c.clock cancelled reply) := by
  cases hd with
  | first hr hn =>
    cases Request.routed hr with
    | write =>
      cases hc
      rcases hf with rfl | ⟨fault, rfl⟩
      · exact .ends (.of_done hcall hr hn hl rfl nofun)
      · exact .ends (.of_failed hcall hr hn hl fault)
    | delete =>
      cases hc
      rcases hf with rfl | ⟨fault, rfl⟩
      · exact .ends (.of_done hcall hr hn hl rfl nofun)
      · exact .ends (.of_failed hcall hr hn hl fault)
    | @read key stored path store hkey hmount =>
      obtain rfl := normalizeKey_eq_ok hkey
      cases hc
      -- The clock at which the record is looked at belongs to the course from now on.
      let seeing : Course := { course with seen := c.clock.read? }
      have hr' : (Request.read key).route mounts seeing.began = .ok (store, .get (trimSlashes key)) := hr
      rcases hf with rfl | ⟨fault, rfl⟩
      · exact Goes.read hr' hn hl (held _)
      · exact .ends (Sound.of_failed hcall hr' hn hl fault)
    | calls => exact hcall.elim
    | hold => exact hcall.elim
  | burn hr hreq hfirst hm =>
    subst hreq
    cases hc
    exact Goes.burn hr hl hfirst hm hf c.clock cancelled

/-! ### Transitions -/

variable {c : Cache} {id : JobId} {job : Job} {old new : Stage} {shelf shelf' : Shelf} {shelves : List Shelf}

/-- A call with the lock makes its visit or waits before it. -/
theorem Due.visits (hcall : request.IsCall) (hd : course.Due mounts request store visit)
    (hl : course.refused = none) (hv : Visits c id store shelf visit new shelf') :
    Sound mounts request new (course.replied new) := by
  have hfirst : ∀ visit', visit' = visit → (∀ ms, visit' ≠ .hold ms) ∧ ∀ replies, visit' ≠ .calls [] replies := by
    rintro visit' rfl
    cases hd with
    | first hr => cases Request.firstVisit hr hcall <;> simp
    | burn => simp
  cases hv with
  | hold => exact absurd rfl ((hfirst _ rfl).1 _)
  | pause => exact .pausing hl hd
  | call hc => exact .returned hl hd hc (Shelf.fair_perform shelf _)
  | done => exact absurd rfl ((hfirst _ rfl).2 _)

/-- What a call comes to that asks for a lock. -/
private theorem Sound.wants (h : Sound c.mounts job.request old course) (hw : Wants c job old store visit) :
    old = .ready ∧ course.replies = [] ∧ job.request.route c.mounts c.clock = .ok (store, visit) := by
  cases hw with
  | call hr =>
    cases h with
    | ready hn => exact ⟨rfl, hn, hr⟩
  | mount => cases h

@[simp] theorem replied_stage (course : Course) (turn : Visit.Turn) : course.replied turn.stage = course := by
  cases turn <;> rfl

/-- The course of a call that asks for the lock of a store. -/
private theorem refused_looked (hcall : job.request.IsCall) (hs : c.shelves[store]? = some shelf)
    (hr : job.request.route c.mounts c.clock = .ok (store, visit)) (course : Course) :
    (course.looked c job .ready).refused = match shelf.lockRefusal? with
      | some fault => some (.backend fault)
      | none => if c.isCancelled job.token then some .cancelled else none := by
  show (job.request.store? c.mounts).bind (c.lockError? job.token) = _
  rw [store?_of_ok hcall hr, Option.bind_some, Cache.lockError?, hs, Option.bind_some]

/-- Every transition of a call keeps its course in step with its stage. -/
theorem Sound.step (h : Sound c.mounts job.request old course) (hcall : job.request.IsCall)
    (ht : Transition c id job old new shelves) :
    Sound c.mounts job.request new ((course.looked c job old).replied new) := by
  have hnot {r : Request} (hr : job.request = r) : r.IsCall := hr ▸ hcall
  cases ht with
  | aside ha =>
    cases ha with
    | answer hr =>
      cases h with
      | ready hn =>
        refine .finished (verdict_of_error (course.looked c job .ready) hcall hr).symm fun _ _ => ?_
        show .done ∉ course.replies
        rw [hn]
        exact List.not_mem_nil
    | sweep hr => exact (hnot hr).elim
    | sweeper hr => exact (hnot hr).elim
    | shutdown hr => exact (hnot hr).elim
    | await hr => exact (hnot hr).elim
    | _ => cases h
  | @refuse _ store visit shelf fault hw hs hfault =>
    obtain ⟨rfl, hn, hr⟩ := h.wants hw
    have hl : (course.looked c job .ready).refused = some (.backend fault) := by
      rw [refused_looked hcall hs hr, hfault]
    rw [replied_stage]
    exact .refused (course.looked c job .ready) hcall hr hn hl
  | cancel hw hs hopen hc =>
    obtain ⟨rfl, hn, hr⟩ := h.wants hw
    have hl : (course.looked c job .ready).refused = some .cancelled := by
      rw [refused_looked hcall hs hr, hopen]
      exact if_pos hc
    rw [replied_stage]
    exact .refused (course.looked c job .ready) hcall hr hn hl
  | @queue _ store visit _ _ hw =>
    obtain ⟨rfl, hn, hr⟩ := h.wants hw
    have hqueued : Sound c.mounts job.request (.queued store visit) (course.looked c job .ready) := .queued hr hn
    exact hqueued
  | enter hw hs hopen hc _ hv =>
    obtain ⟨rfl, hn, hr⟩ := h.wants hw
    have hl : (course.looked c job .ready).refused = none := by
      rw [refused_looked hcall hs hr, hopen]
      simp [hc]
    exact Due.visits hcall (.first hr hn) hl hv
  | @grant store visit _ _ _ _ hc _ hv =>
    cases h with
    | queued hr hn =>
      have hl : (course.looked c job (.queued store visit)).refused = none := by simp [looked, hc]
      exact Due.visits hcall (.first hr hn) hl hv
  | call _ hc _ =>
    cases h with
    | pausing hl hd => exact .returned hl hd hc (Shelf.fair_perform _ _)
  | stay _ hstay hv =>
    cases h with
    | returned hl hd hc hf =>
      have hgoes := hd.next hcall hl hc hf c job (c.isCancelled job.token)
      rw [hstay] at hgoes
      cases hgoes with
      | stays hdue hrefused => exact hdue.visits hcall hrefused hv
  | leave _ _ hleaves =>
    rw [replied_stage]
    cases hleaves with
    | @cancelled store visit hc =>
      cases h with
      | queued hr hn =>
        have hl : (course.looked c job (.queued store visit)).refused = some .cancelled := by simp [looked, hc]
        exact .refused (course.looked c job (.queued store visit)) hcall hr hn hl
    | next hnext hends =>
      cases h with
      | returned hl hd hc hf =>
        have hgoes := hd.next hcall hl hc hf c job (c.isCancelled job.token)
        rw [hnext] at hgoes
        cases hgoes with
        | ends hsound => exact hsound
        | stays => exact absurd rfl (hends _)
    | held => cases h

/-- A call that waits has its course in step with its stage whenever it is looked at. -/
theorem Sound.waits (h : Sound mounts request old course)
    (hold : ∀ store visit reply, old ≠ .returned store visit reply)
    (c : Cache) (job : Job) : Sound mounts request old ((course.looked c job old).replied old) := by
  cases h with
  | ready hn => exact .ready hn
  | queued hr hn => exact .queued hr hn
  | pausing hl hd => exact .pausing hl hd
  | returned => exact absurd rfl (hold _ _ _)
  | finished h hd => exact .finished h hd

private theorem Due.sweeping? (hcall : request.IsCall) (hd : course.Due mounts request store visit) :
    (∀ due, (Stage.pausing store visit due).sweeping? = none) ∧
      ∀ reply, (Stage.returned store visit reply).sweeping? = none := by
  cases hd with
  | first hr => cases Request.firstVisit hr hcall <;> exact ⟨fun _ => rfl, fun _ => rfl⟩
  | burn => exact ⟨fun _ => rfl, fun _ => rfl⟩

/-- The time for a mount means nothing to a call. -/
theorem Sound.sweeping? (h : Sound mounts request old course) (hcall : request.IsCall) : old.sweeping? = none := by
  cases h with
  | ready => rfl
  | queued hr => cases Request.firstVisit hr hcall <;> rfl
  | pausing _ hd => exact (hd.sweeping? hcall).1 _
  | returned _ hd => exact (hd.sweeping? hcall).2 _
  | finished => rfl

/-! ### Runs -/

variable {event : Event}

theorem note_same (id : JobId) (course : Course) (c : Cache) (hm : ¬event.Moves id) :
    course.note id c event = course := by
  cases event with
  | run j => exact if_neg hm
  | _ => rfl

theorem note_absent (course : Course) (hnone : c.jobs[id]? = none) (event : Event) :
    course.note id c event = course := by
  cases event with
  | run j => simp [note, hnone]
  | _ => rfl

theorem along_append (id : JobId) (course : Course) (c : Cache) (before after : List Event) :
    course.along id c (before ++ after) = (course.along id c before).along id (c.steps before) after := by
  induction before generalizing course c with
  | nil => rfl
  | cons event before ih => exact ih ..

theorem replies_note (id : JobId) (course : Course) (c : Cache) (event : Event) :
    course.replies <+: (course.note id c event).replies := by
  have hlooked (job : Job) (stage : Stage) : (course.looked c job stage).replies = course.replies := by
    unfold looked
    split <;> rfl
  have hreplied (course : Course) (stage : Stage) : course.replies <+: (course.replied stage).replies := by
    unfold replied
    split
    · exact List.prefix_append ..
    · exact List.prefix_rfl
  cases event with
  | run j =>
    unfold note
    dsimp only
    split
    · split
      · rw [← hlooked]
        exact hreplied ..
      · exact List.prefix_rfl
    · exact List.prefix_rfl
  | _ => exact List.prefix_rfl

/-- A reply is never taken out of a course. -/
theorem replies_along (id : JobId) (course : Course) (c : Cache) (events : List Event) :
    course.replies <+: (course.along id c events).replies := by
  induction events generalizing course c with
  | nil => exact List.prefix_rfl
  | cons event events ih => exact (replies_note id course c event).trans (ih ..)

/-- The course of a job in a cache, as far as the job has got. -/
structure Fits (c : Cache) (id : JobId) (course : Course) : Prop where
  locks : c.LocksSound
  absent : c.jobs[id]? = none → course.replies = []
  present : ∀ job, c.jobs[id]? = some job → job.request.IsCall → Sound c.mounts job.request job.stage course

namespace Fits

theorem of_unused (hu : c.Unused) (id : JobId) : Fits c id {} where
  locks := .of_unused hu
  absent _ := rfl
  present job hj := by
    rw [hu.jobs] at hj
    cases hj

private theorem note_run (course : Course) (hj : c.jobs[id]? = some job) {stage : Stage}
    (hs : (c.run id).stage? id = some stage) :
    course.note id c (.run id) = (course.looked c job job.stage).replied stage := by
  simp [note, hj, hs]

/-- A turn of a call does nothing or is one of its transitions. -/
theorem turn (h : Fits c id course) (hj : c.jobs[id]? = some job) (hcall : job.request.IsCall)
    (hm : event.Moves id) :
    (c.step event = c ∧ Sound c.mounts job.request job.stage (course.note id c event)) ∨
    ∃ new shelves cancelled sweeper, event = .run id ∧ Transition c id job job.stage new shelves ∧
      c.step event = { c with shelves, cancelled, sweeper }.settle id job.stage new ∧
      course.note id c event = (course.looked c job job.stage).replied new := by
  have hsound := h.present job hj hcall
  cases event with
  | run j =>
    obtain rfl : j = id := hm
    rcases h.locks.run_cases hj with ⟨hrun, hstage⟩ | ⟨new, shelves, cancelled, sweeper, ht, -, hrun⟩
    · left
      have hsame : (c.run j).stage? j = some job.stage := by rw [hrun, Cache.stage?_eq hj]
      rw [note_run course hj hsame]
      exact ⟨hrun, hsound.waits hstage c job⟩
    · right
      have hnew : (c.run j).stage? j = some new := by
        rw [hrun, Cache.stage?_settle hj, if_pos rfl]
      exact ⟨new, shelves, cancelled, sweeper, rfl, ht, hrun, note_run course hj hnew⟩
  | expire j =>
    obtain rfl : j = id := hm
    left
    refine ⟨?_, hsound⟩
    simp [Cache.step, Cache.expire, Cache.stage?_eq hj, hsound.sweeping? hcall]
  | _ => exact hm.elim

/-- Every event keeps the course of a call in step with its stage. -/
theorem step (h : Fits c id course) (event : Event) : Fits (c.step event) id (course.note id c event) := by
  cases hj : c.jobs[id]? with
  | none =>
    rw [note_absent course hj]
    refine ⟨h.locks.step event, fun _ => h.absent hj, fun job hnew _ => ?_⟩
    rw [(h.locks.job_new hj hnew).2]
    exact .ready (h.absent hj)
  | some job =>
    obtain ⟨stage, hstage⟩ := h.locks.job_step hj event
    refine ⟨h.locks.step event, fun hnone => ?_, fun job' hj' hcall => ?_⟩
    · rw [hnone] at hstage
      cases hstage
    · rw [h.locks.mounts_step event]
      have hrequest : job.request.IsCall := by
        rw [hj'] at hstage
        rw [Option.some.inj hstage] at hcall
        exact hcall
      by_cases hm : event.Moves id
      · rcases h.turn hj hrequest hm with ⟨hsame, hsound⟩ | ⟨new, shelves, cancelled, sweeper, -, ht, heq, hnote⟩
        · rw [hsame, hj] at hj'
          cases hj'
          exact hsound
        · rw [heq, Cache.getElem?_settle hj, if_pos rfl] at hj'
          cases hj'
          rw [hnote]
          exact (h.present job hj hrequest).step hrequest ht
      · rw [h.locks.job_same hj hm] at hj'
        cases hj'
        rw [note_same id course c hm]
        exact h.present job hj hrequest

theorem steps (h : Fits c id course) (events : List Event) :
    Fits (c.steps events) id (course.along id c events) := by
  induction events generalizing c course with
  | nil => exact h
  | cons event events ih => exact ih (h.step event)

end Fits

end Course

end RoutedCache

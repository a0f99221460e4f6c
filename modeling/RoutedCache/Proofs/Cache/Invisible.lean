import RoutedCache.Proofs.Cache.Account
import RoutedCache.Proofs.Cache.Calls
import RoutedCache.Proofs.Cache.Sweeping

/-!
# Sweeps between calls

Two caches play the same calls one after the other, one of them with sweeps between the calls and the other one
without.  They stay alike (`Alike`): the stores of the first fade from those of the second by records that have
expired, and nothing else that a call can see is different.  So all calls are answered alike
(`Cache.sweeps_invisible`).
-/

namespace RoutedCache

/-- A call with the events before it. -/
structure Beat where
  before : List Event
  request : Request
  token : Token := .never

/-- The event also happens where there are no sweeps. -/
def Event.isQuiet : Event → Bool
  | .cancel _ | .elapse _ | .setClock _ => true
  | _ => false

/-- The call without the sweeps before it. -/
def Beat.quiet (beat : Beat) : Beat := { beat with before := beat.before.filter Event.isQuiet }

namespace Cache

def beat (c : Cache) (b : Beat) : Cache := (c.steps b.before).serve b.request b.token

/-- The cache after calls one after the other. -/
def play (c : Cache) (beats : List Beat) : Cache := beats.foldl beat c

/-- The answers to the calls, each of them as it is when the call has been served. -/
def answers (c : Cache) : List Beat → List (Option Answer)
  | [] => []
  | b :: beats => (c.beat b).answer? (c.steps b.before).jobs.length :: (c.beat b).answers beats

/-- What may happen between calls: sweeps start, go on, are cancelled and run out of time, and the clock does not
go back. -/
def Between (c : Cache) : Event → Prop
  | .start request _ => request.Sweeps
  | .setClock t => c.clock.nanos ≤ (Clock.ofInstant t).nanos
  | _ => True

def Interlude (c : Cache) : List Event → Prop
  | [] => True
  | event :: events => c.Between event ∧ (c.step event).Interlude events

/-- The clock shows a time, and no sweep, nor a call that a sweep has left behind, is at work in the store of the
call. -/
def Clear (c : Cache) (request : Request) : Prop :=
  (∃ now, c.clock.read? = some now) ∧ ∀ store visit, request.route c.mounts c.clock = .ok (store, visit) →
    ∀ shelf, c.shelves[store]? = some shelf → shelf.lock.holder = none

/-- All events between the calls are those of sweeps, of tokens and of time. -/
def Spaced (c : Cache) : List Beat → Prop
  | [] => True
  | b :: beats =>
    c.Interlude b.before ∧ b.request.IsCall ∧ (c.steps b.before).Clear b.request ∧ (c.beat b).Spaced beats

/-- Every mount leads to a store. -/
def Mounted (c : Cache) : Prop := ∀ mount ∈ c.mounts.mounts, mount.2 < c.shelves.length

end Cache

/-- The counters of the calls are the same. -/
structure Counters.AgreeOnCalls (a b : Counters) : Prop where
  hits : a.hits = b.hits
  misses : a.misses = b.misses
  writes : a.writes = b.writes
  skippedWrites : a.skippedWrites = b.skippedWrites
  burned : a.burned = b.burned
  deletes : a.deletes = b.deletes

/-- The first cache has had sweeps between its calls and the second one has not. -/
structure Alike (c q : Cache) : Prop where
  locks : c.LocksSound
  mounts : q.mounts = c.mounts
  clock : q.clock = c.clock
  cancelled : q.cancelled = c.cancelled
  counters : c.counters.AgreeOnCalls q.counters
  length : q.shelves.length = c.shelves.length
  mounted : c.Mounted
  honest : HonestShelves c.shelves
  free : ∀ (s : Nat) (shelf : Shelf), q.shelves[s]? = some shelf → shelf.Open ∧ shelf.store.Honest
  fades : ∀ (s : Nat) (full faded : Shelf), q.shelves[s]? = some full → c.shelves[s]? = some faded →
    full.store.Fades (Record.Expired c.clock) faded.store
  jobs : ∀ (id : JobId) (job : Job), c.jobs[id]? = some job →
    (∃ answer, job.stage = .finished answer) ∨ job.request.Sweeps ∧ SweepStage c.clock c.shelves job.stage

/-! ### Counters -/

namespace Counters.AgreeOnCalls

variable {a b : Counters}

theorem refl (a : Counters) : a.AgreeOnCalls a := ⟨rfl, rfl, rfl, rfl, rfl, rfl⟩

theorem count (h : a.AgreeOnCalls b) (answer : Answer) : (a.count answer).AgreeOnCalls (b.count answer) := by
  obtain ⟨hhits, hmisses, hwrites, hskipped, hburned, hdeletes⟩ := h
  cases answer with
  | failed error =>
    cases error with
    | notFound => exact ⟨hhits, congrArg (· + 1) hmisses, hwrites, hskipped, hburned, hdeletes⟩
    | _ => exact ⟨hhits, hmisses, hwrites, hskipped, hburned, hdeletes⟩
  | written => exact ⟨hhits, hmisses, congrArg (· + 1) hwrites, hskipped, hburned, hdeletes⟩
  | dropped => exact ⟨hhits, hmisses, hwrites, congrArg (· + 1) hskipped, hburned, hdeletes⟩
  | record record =>
    exact ⟨congrArg (· + 1) hhits, hmisses, hwrites, hskipped, congrArg (· + _) hburned, hdeletes⟩
  | deleted => exact ⟨hhits, hmisses, hwrites, hskipped, hburned, congrArg (· + 1) hdeletes⟩
  | _ => exact ⟨hhits, hmisses, hwrites, hskipped, hburned, hdeletes⟩

private theorem endsSweep (h : a.AgreeOnCalls b) {answer : Answer} (ha : answer.EndsSweep) :
    (a.count answer).AgreeOnCalls b := by
  obtain ⟨hhits, hmisses, hwrites, hskipped, hburned, hdeletes⟩ := h
  rcases ha with rfl | rfl | ⟨report, rfl⟩ <;> exact ⟨hhits, hmisses, hwrites, hskipped, hburned, hdeletes⟩

/-- The end of a sweep does not count for the calls. -/
theorem tally (h : a.AgreeOnCalls b) {old new : Stage}
    (hnew : ∀ answer, new = .finished answer → answer.EndsSweep) :
    (a.tally old new).AgreeOnCalls b := by
  unfold Counters.tally
  split
  next => exact h
  next answer _ => exact h.endsSweep (hnew answer rfl)
  next cycle due => exact h.endsSweep (.inr (.inr ⟨_, rfl⟩))
  next => exact h

end Counters.AgreeOnCalls

/-! ### Sweeps of which nothing is seen -/

namespace SweepStage

variable {clock : Clock} {shelves shelves' : List Shelf} {stage : Stage}

/-- The stage of a sweep depends on the content of the store in which it is at work, and on nothing else. -/
theorem frame (h : SweepStage clock shelves stage)
    (hsame : ∀ (s : Nat) (shelf' : Shelf), stage.inside? = some s →
      shelves'[s]? = some shelf' → ∃ shelf, shelves[s]? = some shelf ∧ shelf'.store = shelf.store) :
    SweepStage clock shelves' stage := by
  cases h with
  | @list store path cycle entries hshows =>
    refine .list fun shelf' hs' entry hentry => ?_
    obtain ⟨shelf, hs, hstore⟩ := hsame store shelf' rfl hs'
    rw [hstore]
    exact hshows shelf hs entry hentry
  | @evict store key mount cycle reply hclock hshows =>
    refine .evict hclock fun shelf' hs' entry hentry => ?_
    obtain ⟨shelf, hs, hstore⟩ := hsame store shelf' rfl hs'
    rw [hstore]
    exact hshows shelf hs entry hentry
  | ready => exact .ready
  | between => exact .between
  | idle => exact .idle
  | finished => exact .finished
  | queued => exact .queued

theorem later (h : SweepStage clock shelves stage) {clock' : Clock} (hle : clock.nanos ≤ clock'.nanos) :
    SweepStage clock' shelves stage := by
  cases h with
  | list hshows => exact .list hshows
  | evict hclock hshows =>
    obtain ⟨earlier, hearlier, hread⟩ := hclock
    exact .evict ⟨earlier, by omega, hread⟩ hshows
  | ready => exact .ready
  | between => exact .between
  | idle => exact .idle
  | finished => exact .finished
  | queued => exact .queued

end SweepStage

namespace Alike

variable {c q : Cache} {id : JobId} {job : Job}

/-- The clock of both goes on. -/
theorem later (h : Alike c q) (time time' : Nat) {clock : Clock} (hle : c.clock.nanos ≤ clock.nanos) :
    Alike { c with time, clock } { q with time := time', clock } :=
  ⟨h.locks.of_eq rfl rfl, h.mounts, rfl, h.cancelled, h.counters,
    h.length, h.mounted, h.honest, h.free,
    fun s full faded hfull hfaded => (h.fades s full faded hfull hfaded).mono fun _ hr => hr.mono hle,
    fun id job hj => (h.jobs id job hj).imp_right fun ⟨hr, hs⟩ => ⟨hr, hs.later hle⟩⟩

theorem start (h : Alike c q) {request : Request} (hr : request.Sweeps) (token : Token) :
    Alike (c.step (.start request token)) q := by
  refine ⟨h.locks.step _, h.mounts, h.clock, h.cancelled, h.counters, h.length, h.mounted, h.honest, h.free,
    h.fades, fun (id : Nat) job hj => ?_⟩
  have hjobs : (c.jobs ++ [⟨request, token, .ready⟩])[id]? = some job := hj
  rw [List.getElem?_append] at hjobs
  split at hjobs
  next => exact h.jobs id job hjobs
  next =>
    obtain ⟨hlt, rfl⟩ := List.getElem?_eq_some_iff.1 hjobs
    rw [List.getElem_singleton]
    exact .inr ⟨hr, .ready⟩

/-- A sweep goes on. -/
private theorem settle (h : Alike c q) (hj : c.jobs[id]? = some job) (hr : job.request.Sweeps) {new : Stage}
    {shelves : List Shelf} {sweeper : Option JobId}
    (hlocks : ({ c with shelves, sweeper }.settle id job.stage new).LocksSound) (hs : SweepStep c new shelves) :
    Alike ({ c with shelves, sweeper }.settle id job.stage new) q := by
  have hjobs := Cache.getElem?_settle hj shelves c.cancelled sweeper job.stage new
  have hself := (hjobs id).trans (if_pos rfl)
  refine ⟨hlocks, h.mounts, h.clock, h.cancelled, h.counters.tally hs.answers,
    h.length.trans hs.erodes.1.symm, ?_, hs.erodes.honest h.honest, h.free,
    fun s full faded hfull hfaded => ?_, fun j other hj' => ?_⟩
  · intro mount hm
    show mount.2 < shelves.length
    rw [hs.erodes.1]
    exact h.mounted mount hm
  · obtain ⟨shelf, hshelf, -, hstore⟩ := hs.erodes.2 s faded hfaded
    have hfades := h.fades s full shelf hfull hshelf
    -- A deletion of the sweep takes a record that is expired, which is all that fading asks for.
    rcases hstore with heq | ⟨-, key, hwithers, heq⟩
    · rw [heq]
      exact hfades
    · rw [heq]
      exact hfades.wipe (h.honest s shelf hshelf).2 hwithers
  · rw [hjobs] at hj'
    split at hj'
    next =>
      cases hj'
      exact .inr ⟨hr, hs.stage⟩
    next hne =>
      refine (h.jobs j other hj').imp_right fun ⟨hr', hstage⟩ => ⟨hr', hstage.frame fun s shelf' hin hs' => ?_⟩
      obtain ⟨shelf, hshelf, -, hstore⟩ := hs.erodes.2 s shelf' hs'
      refine ⟨shelf, hshelf, hstore.resolve_right fun ⟨hinside, _⟩ => hne ?_⟩
      -- Two jobs at work in one store are one job.
      refine hlocks.exclusive (s := s) ?_ ?_
      · rw [Cache.inside?_eq ((hjobs j).trans (by rw [if_neg hne, hj'])), hin]
      · rw [Cache.inside?_eq hself, hinside]

private theorem run (h : Alike c q) (id : JobId) : Alike (c.run id) q := by
  cases hj : c.jobs[id]? with
  | none =>
    have hrun : c.run id = c := by simp only [Cache.run, hj]
    rw [hrun]
    exact h
  | some job =>
    rcases h.locks.run_cases hj with ⟨hrun, -⟩ | ⟨new, shelves, cancelled, sweeper, ht, hcancelled, hrun⟩
    · rw [hrun]
      exact h
    · rcases h.jobs id job hj with ⟨answer, hover⟩ | ⟨hr, hstage⟩
      · exact absurd hover (ht.inside.1 answer)
      · have hsame : cancelled = c.cancelled := by
          refine hcancelled.resolve_right fun hcancels => ?_
          rcases hcancels.1 with hr' | ⟨s, shelf, hs, call, reply, htrips⟩
          · rcases hr with hr | hr <;> rw [hr] at hr' <;> cases hr'
          · rw [(h.honest s shelf hs).2.plain.trips] at htrips
            cases htrips
        subst hsame
        rw [hrun]
        exact h.settle hj hr (h.locks.transition hj ht) (hstage.step hr h.honest ht)

private theorem expire (h : Alike c q) (id : JobId) : Alike (c.expire id) q := by
  rcases h.locks.expire_cases id with hexpire | ⟨job, new, shelves, hj, he, hexpire⟩
  · rw [hexpire]
    exact h
  · rw [hexpire]
    have hlocks := h.locks.expiry hj he
    rcases h.jobs id job hj with ⟨answer, hover⟩ | ⟨hr, -⟩
    · rw [hover] at he
      cases he with
      | skip hk => cases hk
    · refine h.settle hj hr hlocks ?_
      cases he with
      | skip _ _ hs =>
        have ho := (h.honest _ _ hs).1
        exact ⟨.between, by simp, .lock h.honest hs ho rfl⟩

private theorem complete (h : Alike c q) (store : Nat) : Alike (c.step (.complete store)) q := by
  have hlocks := h.locks.step (.complete store)
  rcases Cache.complete_cases c store with heq | ⟨shelf, hs, heq⟩
  · rw [heq]
    exact h
  · rw [heq] at hlocks ⊢
    refine ⟨hlocks, h.mounts, h.clock, h.cancelled, h.counters, h.length.trans List.length_set.symm,
      fun mount hm => ?_, fun s shelf' hs' => ?_, h.free, fun s full faded hfull hfaded => ?_, fun id job hj => ?_⟩
    · show mount.2 < (c.shelves.set store shelf.released).length
      rw [List.length_set]
      exact h.mounted mount hm
    · obtain ⟨before, hbefore, hstore, houtages⟩ := Shelf.set_lock_cases hs hs'
      rw [hstore, houtages]
      exact h.honest s before hbefore
    · obtain ⟨before, hbefore, hstore, -⟩ := Shelf.set_lock_cases hs hfaded
      rw [hstore]
      exact h.fades s full before hfull hbefore
    · refine (h.jobs id job hj).imp_right fun ⟨hr, hstage⟩ => ⟨hr, hstage.frame fun s shelf' _ hs' => ?_⟩
      obtain ⟨before, hbefore, hstore, -⟩ := Shelf.set_lock_cases hs hs'
      exact ⟨before, hbefore, hstore⟩

/-- An event between calls, of which the cache without sweeps sees only what does not come from sweeps. -/
theorem between (h : Alike c q) {event : Event} (hb : c.Between event) :
    Alike (c.step event) (q.steps ([event].filter Event.isQuiet)) := by
  cases event with
  | start request token => exact h.start hb token
  | run id => exact h.run id
  | expire id => exact h.expire id
  | complete store => exact h.complete store
  | cancel token =>
    show Alike (c.cancel token) (q.cancel token)
    unfold Cache.cancel
    split
    next => exact h
    next =>
      exact ⟨h.locks.of_eq rfl rfl, h.mounts, h.clock,
        congrArg (token :: ·) h.cancelled, h.counters, h.length, h.mounted, h.honest, h.free, h.fades, h.jobs⟩
  | elapse ms =>
    have hle : c.clock.nanos ≤ (c.clock.forward (Duration.ofMillis ms)).nanos := by
      show c.clock.nanos ≤ c.clock.nanos + ((Duration.ofMillis ms).toNanos : Int)
      omega
    show Alike _ { q with time := q.time + ms, clock := q.clock.forward (Duration.ofMillis ms) }
    rw [h.clock]
    exact h.later (c.time + ms) (q.time + ms) hle
  | setClock t => exact h.later c.time q.time hb

theorem interlude (h : Alike c q) {events : List Event} (hi : c.Interlude events) :
    Alike (c.steps events) (q.steps (events.filter Event.isQuiet)) := by
  induction events generalizing c q with
  | nil => exact h
  | cons event events ih =>
    have hnext := ih (h.between hi.1) hi.2
    have hsplit : (event :: events).filter Event.isQuiet =
        [event].filter Event.isQuiet ++ events.filter Event.isQuiet := by
      rw [← List.filter_append]
      rfl
    rw [hsplit]
    unfold Cache.steps at hnext ⊢
    rw [List.foldl_append]
    exact hnext

end Alike

/-! ### Calls that are answered alike -/

/-- A visit to a store and to one that has faded from it ends with the same answer, and the stores stay so. -/
theorem Store.Fades.serves {gone : Record → Prop} {full faded content content' : Store} {clock : Clock}
    {now : Instant} {visit : Visit} {answer answer' : Answer} (h : full.Fades gone faded) (hfull : full.Honest)
    (hfaded : faded.Honest) (hnow : clock.read? = some now)
    (hgone : ∀ record, gone record → record.isValidAt now = false) (hs : full.Serves clock visit answer content)
    (hs' : faded.Serves clock visit answer' content') :
    answer' = answer ∧ content.Fades gone content' ∧ content.Honest ∧ content'.Honest := by
  cases hs with
  | put =>
    cases hs'
    exact ⟨rfl, h.put hfull hfaded _, hfull.perform _, hfaded.perform _⟩
  | delete =>
    cases hs'
    exact ⟨rfl, h.delete hfull hfaded _, hfull.perform _, hfaded.perform _⟩
  | @get key _ hnext =>
    rw [← h.next_get hfull hfaded hnow hgone] at hnext
    cases hs' with
    | get hnext' =>
      rw [hnext] at hnext'
      cases hnext'
      exact ⟨rfl, h, hfull, hfaded⟩
    | burn hnext' =>
      rw [hnext] at hnext'
      cases hnext'
  | @burn key _ hnext =>
    rw [← h.next_get hfull hfaded hnow hgone] at hnext
    cases hs' with
    | get hnext' =>
      rw [hnext] at hnext'
      cases hnext'
    | burn hnext' =>
      rw [hnext] at hnext'
      cases hnext'
      exact ⟨rfl, h.delete hfull hfaded _, hfull.perform _, hfaded.perform _⟩

theorem MountTable.mem_of_resolve {mounts : MountTable Nat} {key path : String} {store : Nat}
    (h : mounts.resolve key = .ok (path, store)) : (path, store) ∈ mounts.mounts := by
  unfold resolve at h
  dsimp only at h
  split at h
  next store' hget =>
    obtain ⟨rfl, rfl⟩ : leadingSegment key = path ∧ store' = store := by simpa using h
    exact KeyMap.mem_toList_iff.2 hget
  next => simp at h

/-- A call goes to the store of a mount. -/
theorem Request.mount_of_route {mounts : MountTable Nat} {clock : Clock} {request : Request} {store : Nat}
    {visit : Visit} (h : request.route mounts clock = .ok (store, visit)) (hcall : request.IsCall) :
    ∃ path, (path, store) ∈ mounts.mounts := by
  cases routed h with
  | write _ hmount => exact ⟨_, MountTable.mem_of_resolve hmount⟩
  | read _ hmount => exact ⟨_, MountTable.mem_of_resolve hmount⟩
  | delete _ hmount => exact ⟨_, MountTable.mem_of_resolve hmount⟩
  | calls => exact hcall.elim
  | hold => exact hcall.elim

namespace Alike

variable {c q : Cache} {request : Request} {token : Token}

/-- The same call is answered in both. -/
private theorem answered (h : Alike c q) (answer : Answer) {shelves shelves' : List Shelf}
    (hlocks : (c.answered request token answer shelves).LocksSound)
    (hlength : shelves.length = c.shelves.length)
    (hlength' : shelves'.length = q.shelves.length) (honest : HonestShelves shelves)
    (hfree : ∀ (s : Nat) (shelf : Shelf), shelves'[s]? = some shelf → shelf.Open ∧ shelf.store.Honest)
    (hfades : ∀ (s : Nat) (full faded : Shelf), shelves'[s]? = some full → shelves[s]? = some faded →
      full.store.Fades (Record.Expired c.clock) faded.store)
    (hsame : ∀ (id : JobId) (job : Job) (s : Nat) (shelf' : Shelf), c.jobs[id]? = some job →
      job.stage.inside? = some s → shelves[s]? = some shelf' →
        ∃ shelf, c.shelves[s]? = some shelf ∧ shelf'.store = shelf.store) :
    Alike (c.answered request token answer shelves) (q.answered request token answer shelves') := by
  refine ⟨hlocks, h.mounts, h.clock, h.cancelled, h.counters.count answer, ?_, fun mount hm => ?_, honest,
    hfree, hfades, fun (id : Nat) job hj => ?_⟩
  · exact (hlength'.trans h.length).trans hlength.symm
  · show mount.2 < shelves.length
    rw [hlength]
    exact h.mounted mount hm
  · have hjobs : (c.jobs ++ [{ request, token, stage := .finished answer }])[id]? = some job := hj
    rw [List.getElem?_append] at hjobs
    split at hjobs
    next =>
      refine (h.jobs id job hjobs).imp_right fun ⟨hr, hs⟩ => ⟨hr, hs.frame fun s shelf' hin hs' => ?_⟩
      exact hsame id job s shelf' hjobs hin hs'
    next =>
      obtain ⟨hlt, rfl⟩ := List.getElem?_eq_some_iff.1 hjobs
      rw [List.getElem_singleton]
      exact .inl ⟨answer, rfl⟩

private theorem served (h : Alike c q) {answer answer' : Answer} {shelves shelves' : List Shelf} {now : Instant}
    (hnow : c.clock.read? = some now)
    (hclear : ∀ store visit, request.route c.mounts c.clock = .ok (store, visit) → ∀ shelf,
      c.shelves[store]? = some shelf → shelf.lock.holder = none)
    (hlocks : (c.answered request token answer shelves).LocksSound) (hc : c.Served request token answer shelves)
    (hq : q.Served request token answer' shelves') :
    answer' = answer ∧
      Alike (c.answered request token answer shelves) (q.answered request token answer' shelves') := by
  have hroute : request.route q.mounts q.clock = request.route c.mounts c.clock := by rw [h.mounts, h.clock]
  have hcancel : q.isCancelled token = c.isCancelled token := by rw [Cache.isCancelled, h.cancelled]; rfl
  have hquiet (answer : Answer) (hlocks : (c.answered request token answer c.shelves).LocksSound) :
      Alike (c.answered request token answer c.shelves) (q.answered request token answer q.shelves) :=
    h.answered answer hlocks rfl rfl h.honest h.free h.fades fun _ _ _ shelf _ _ hs => ⟨shelf, hs, rfl⟩
  cases hc with
  | refused hok =>
    cases hq with
    | refused hok' =>
      rw [hroute, hok] at hok'
      cases hok'
      exact ⟨rfl, hquiet _ hlocks⟩
    | cancelled hok' => rw [hroute, hok] at hok'; cases hok'
    | served hok' => rw [hroute, hok] at hok'; cases hok'
  | cancelled hok hcancelled =>
    cases hq with
    | refused hok' => rw [hroute, hok] at hok'; cases hok'
    | cancelled => exact ⟨rfl, hquiet _ hlocks⟩
    | served _ hcancelled' => rw [hcancel, hcancelled] at hcancelled'; cases hcancelled'
  | @served store visit faded _ content' hok hcancelled hfaded hserves' =>
    cases hq with
    | refused hok' => rw [hroute, hok] at hok'; cases hok'
    | cancelled _ hcancelled' => rw [hcancel, hcancelled] at hcancelled'; cases hcancelled'
    | @served _ _ full _ content hok' _ hfull hserves =>
      rw [hroute, hok] at hok'
      cases hok'
      rw [h.clock] at hserves
      obtain ⟨hopen, hhonest⟩ := h.free store full hfull
      obtain ⟨houtages, hhonest'⟩ := h.honest store faded hfaded
      obtain ⟨rfl, hcontent, hhonestc, hhonestc'⟩ :=
        (h.fades store full faded hfull hfaded).serves hhonest hhonest' hnow
        (fun _ hr => hr.not_valid hnow) hserves hserves'
      refine ⟨rfl, h.answered _ hlocks List.length_set List.length_set ?_ ?_ ?_ ?_⟩
      · intro s shelf hs
        rcases Shelf.set_cases hs with ⟨rfl, rfl⟩ | ⟨-, hs⟩
        · exact ⟨houtages, hhonestc'⟩
        · exact h.honest s shelf hs
      · intro s shelf hs
        rcases Shelf.set_cases hs with ⟨rfl, rfl⟩ | ⟨-, hs⟩
        · exact ⟨hopen.filled hhonestc.plain, hhonestc⟩
        · exact h.free s shelf hs
      · intro s full' faded' hs hs'
        rcases Shelf.set_cases hs with ⟨rfl, rfl⟩ | ⟨hne, hs⟩
        · rcases Shelf.set_cases hs' with ⟨-, rfl⟩ | ⟨hne, -⟩
          · exact hcontent
          · exact absurd rfl hne
        · rcases Shelf.set_cases hs' with ⟨heq, -⟩ | ⟨-, hs'⟩
          · exact absurd heq hne
          · exact h.fades s full' faded' hs hs'
      · intro id job s shelf' hj hin hs
        rcases Shelf.set_cases hs with ⟨rfl, -⟩ | ⟨-, hs⟩
        · have hholder := h.locks.holder_of_inside (by rw [Cache.inside?_eq hj, hin]) hfaded
          rw [hclear s visit hok _ hfaded] at hholder
          cases hholder
        · exact ⟨shelf', hs, rfl⟩

/-- The store of a call is at hand if the call is clear. -/
private theorem opens (h : Alike c q) (hcall : request.IsCall) (hclear : c.Clear request) {store : Nat}
    {visit : Visit} (hok : request.route c.mounts c.clock = .ok (store, visit)) :
    ∃ shelf, c.shelves[store]? = some shelf ∧ shelf.Open := by
  obtain ⟨path, hmount⟩ := Request.mount_of_route hok hcall
  have hlt : store < c.shelves.length := h.mounted _ hmount
  have hs := List.getElem?_eq_getElem hlt
  obtain ⟨houtages, hhonest⟩ := h.honest store _ hs
  have hholder := hclear.2 store visit hok _ hs
  have hwaiting := (h.locks.sound store _ hs).free hholder
  refine ⟨_, hs, hhonest.plain, ?_, houtages⟩
  generalize c.shelves[store].lock = lock at hholder hwaiting
  obtain ⟨holder, waiting⟩ := lock
  cases hholder
  cases hwaiting
  rfl

/-- A call is answered alike by both. -/
theorem serve (h : Alike c q) (hcall : request.IsCall) (hclear : c.Clear request) (token : Token) :
    ∃ answer, (c.serve request token).answer? c.jobs.length = some answer ∧
      (q.serve request token).answer? q.jobs.length = some answer ∧
      Alike (c.serve request token) (q.serve request token) := by
  obtain ⟨answer, shelves, hserved, heq⟩ := Cache.serve_call c token hcall
    fun store visit hok => h.opens hcall hclear hok
  obtain ⟨answer', shelves', hserved', heq'⟩ := Cache.serve_call q token hcall
    fun store visit hok => by
      rw [h.mounts, h.clock] at hok
      obtain ⟨path, hmount⟩ := Request.mount_of_route hok hcall
      have hlt : store < q.shelves.length := by
        rw [h.length]
        exact h.mounted _ hmount
      have hs := List.getElem?_eq_getElem hlt
      exact ⟨_, hs, (h.free store _ hs).1⟩
  have hlocks : (c.serve request token).LocksSound := h.locks.steps _
  obtain ⟨now, hnow⟩ := hclear.1
  -- Each of them is answered in its own cache; that the answers are the same comes from the stores.
  rw [heq] at hlocks ⊢
  rw [heq']
  obtain ⟨rfl, halike⟩ := h.served hnow hclear.2 hlocks hserved hserved'
  exact ⟨answer', Cache.answer?_answered shelves, Cache.answer?_answered shelves', halike⟩

theorem beat (h : Alike c q) {b : Beat} (hi : c.Interlude b.before) (hcall : b.request.IsCall)
    (hclear : (c.steps b.before).Clear b.request) :
    ∃ answer, (c.beat b).answer? (c.steps b.before).jobs.length = some answer ∧
      (q.beat b.quiet).answer? (q.steps b.quiet.before).jobs.length = some answer ∧
      Alike (c.beat b) (q.beat b.quiet) :=
  (h.interlude hi).serve hcall hclear b.token

/-- Calls one after the other are answered alike. -/
theorem play (h : Alike c q) {beats : List Beat} (hs : c.Spaced beats) :
    c.answers beats = q.answers (beats.map Beat.quiet) ∧ (∀ answer ∈ c.answers beats, answer.isSome) ∧
      Alike (c.play beats) (q.play (beats.map Beat.quiet)) := by
  induction beats generalizing c q with
  | nil => exact ⟨rfl, fun _ h => absurd h List.not_mem_nil, h⟩
  | cons b beats ih =>
    obtain ⟨hi, hcall, hclear, hrest⟩ := hs
    obtain ⟨answer, hc, hq, halike⟩ := h.beat hi hcall hclear
    obtain ⟨hanswers, hsome, hlast⟩ := ih halike hrest
    refine ⟨?_, ?_, hlast⟩
    · rw [Cache.answers, List.map_cons, Cache.answers, hc, hq, hanswers]
    · rw [Cache.answers, hc]
      intro answer' ha
      rcases List.mem_cons.1 ha with rfl | ha
      · rfl
      · exact hsome answer' ha

theorem of_unused {first : Cache} (hu : first.Unused) (hh : HonestShelves first.shelves) (hm : first.Mounted) :
    Alike first first where
  locks := .of_unused hu
  mounts := rfl
  clock := rfl
  cancelled := rfl
  counters := .refl _
  length := rfl
  mounted := hm
  honest := hh
  free s shelf hs := ⟨⟨(hh s shelf hs).2.plain, hu.free s shelf hs, (hh s shelf hs).1⟩, (hh s shelf hs).2⟩
  fades s full faded hfull hfaded := by
    rw [hfull] at hfaded
    cases hfaded
    exact .refl (hh s full hfull).2
  jobs id job hj := by simp [hu.jobs] at hj

end Alike

namespace Cache

/-- Sweeps between calls are invisible to the calls.  With them and without them, all calls are answered, with the
same answers and the same counters, and at the end the stores differ by missing records that have expired. -/
theorem sweeps_invisible {first : Cache} (hu : first.Unused) (hh : HonestShelves first.shelves)
    (hm : first.Mounted) {beats : List Beat} {after : List Event} (hspaced : first.Spaced beats)
    (hafter : (first.play beats).Interlude after) :
    first.answers beats = first.answers (beats.map Beat.quiet) ∧
    (∀ answer ∈ first.answers beats, answer.isSome) ∧
    ((first.play beats).steps after).counters.AgreeOnCalls
      ((first.play (beats.map Beat.quiet)).steps (after.filter Event.isQuiet)).counters ∧
    ((first.play beats).steps after).shelves.length =
      ((first.play (beats.map Beat.quiet)).steps (after.filter Event.isQuiet)).shelves.length ∧
    ∀ now, ((first.play beats).steps after).clock.read? = some now → ∀ (s : Nat) (full faded : Shelf),
      ((first.play (beats.map Beat.quiet)).steps (after.filter Event.isQuiet)).shelves[s]? = some full →
      ((first.play beats).steps after).shelves[s]? = some faded →
        full.store.Fades (fun record => record.isValidAt now = false) faded.store := by
  obtain ⟨hanswers, hsome, halike⟩ := (Alike.of_unused hu hh hm).play hspaced
  have hlast := halike.interlude hafter
  refine ⟨hanswers, hsome, hlast.counters, hlast.length.symm, fun now hnow s full faded hfull hfaded => ?_⟩
  exact (hlast.fades s full faded hfull hfaded).mono fun record hr => hr.not_valid hnow

theorem Clear.of_free {c : Cache} (hclock : c.clock.read?.isSome)
    (hfree : ∀ shelf ∈ c.shelves, shelf.lock.holder = none) (request : Request) : c.Clear request :=
  ⟨Option.isSome_iff_exists.1 hclock, fun _ _ _ shelf hs => hfree shelf (List.mem_of_getElem? hs)⟩

/-- A record that expires before it is read is not found, whether or not a sweep has removed it. -/
theorem sweeps_invisible_expired :
    let first := fresh ⟨KeyMap.empty.insert "a" 0⟩ [.memory .empty] 0 0 (.ofInstant default)
    let beats : List Beat := [{ before := [], request := .write "a/k" [7] [.ttl ⟨1, 0, by decide⟩] },
      { before := [.elapse 2000, .start .sweep .never, .run 1, .run 1, .run 1, .run 1, .run 1],
        request := .read "a/k" }]
    first.Unused ∧ HonestShelves first.shelves ∧ first.Mounted ∧ first.Spaced beats ∧
      (first.play beats).counters.evicted = 1 ∧
      first.answers beats = [some .written, some (.failed (.notFound "a/k"))] ∧
      first.answers (beats.map Beat.quiet) = [some .written, some (.failed (.notFound "a/k"))] := by
  intro first beats
  have hu : first.Unused := unused_fresh ..
  have hh : HonestShelves first.shelves := by
    intro s shelf hs
    obtain ⟨store, hstore, rfl⟩ := getElem?_fresh hs
    rw [List.mem_singleton.1 (List.mem_of_getElem? hstore)]
    exact ⟨rfl, trivial⟩
  have hm : first.Mounted := by unfold Mounted; decide +kernel
  have hspaced : first.Spaced beats := by
    refine ⟨trivial, trivial, .of_free (by decide +kernel) (by decide +kernel) _, ?_⟩
    refine ⟨⟨trivial, .inl rfl, trivial, trivial, trivial, trivial, trivial, trivial⟩, trivial, ?_, trivial⟩
    exact .of_free (by decide +kernel) (by decide +kernel) _
  have hanswers : first.answers beats = [some .written, some (.failed (.notFound "a/k"))] := by decide +kernel
  have hsame := (sweeps_invisible hu hh hm hspaced (show (first.play beats).Interlude [] from trivial)).1
  exact ⟨hu, hh, hm, hspaced, by decide +kernel, hanswers, hsame ▸ hanswers⟩

end Cache

end RoutedCache

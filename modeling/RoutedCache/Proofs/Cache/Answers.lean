import RoutedCache.Proofs.Cache.Checks
import RoutedCache.Proofs.Cache.Doomed
import RoutedCache.Proofs.Cache.Frame

/-!
# Requests and their answers

What a job does in the stores and what it is answered hang on what it was asked: only writes put, only reads are
answered with records or with the news that there is none, only sweeps go over the mounts.  `Request.Stands` says
which stages a request may come to, and every event keeps it (`Cache.stands_steps`).
-/

namespace RoutedCache

/-- The request may come to this visit. -/
def Request.Pays : Request → Visit → Prop
  | .write .., .put _ => True
  | .read _, .get _ => True
  | .read _, .burn .. => True
  | .delete _, .delete _ => True
  | .sweep, .list .. | .sweep, .evict .. => True
  | .sweeper, .list .. | .sweeper, .evict .. => True
  | .calls .., .calls .. => True
  | .hold .., .hold _ => True
  | _, _ => False

/-- The request may get this answer. -/
def Request.Admits : Request → Answer → Prop
  | .write .., .written | .write .., .dropped => True
  | .read _, .record _ => True
  | .read _, .failed _ => True
  | .delete _, .deleted => True
  | .sweep, .swept _ => True
  | .calls .., .replies _ => True
  | .hold .., .ended | .sweeper, .ended | .shutdown, .ended => True
  | _, .failed error => error.isNotFound = false
  | _, .broken => True
  | _, _ => False

/-- The request may come to this turn after a reply. -/
def Request.Turns (request : Request) : Visit.Turn → Prop
  | .stay visit => request.Pays visit
  | .answer answer => request.Admits answer
  | .move _ => request.Sweeps

/-- The request may come to this stage. -/
def Request.Stands (request : Request) : Stage → Prop
  | .ready => True
  | .between _ => request.Sweeps
  | .queued _ visit | .pausing _ visit _ | .returned _ visit _ => request.Pays visit
  | .holding .. => ∃ store ms, request = .hold store ms
  | .idle _ => request = .sweeper
  | .awaiting _ => request = .shutdown
  | .finished answer => request.Admits answer

/-- The sweep of all mounts in which a job with this stage is. -/
def Stage.cycle? : Stage → Option SweepCycle
  | .between cycle => some cycle
  | stage => stage.sweeping?.map (·.2)

theorem Stage.cycle?_of_sweeping? {stage : Stage} {store : Nat} {cycle : SweepCycle}
    (h : stage.sweeping? = some (store, cycle)) : stage.cycle? = some cycle := by
  cases stage with
  | between => cases h
  | _ => exact congrArg (Option.map (·.2)) h

theorem Stage.sweeping?_of_cycle? {stage : Stage} (h : stage.cycle? = none) : stage.sweeping? = none := by
  cases hk : stage.sweeping? with
  | none => rfl
  | some place =>
    obtain ⟨store, cycle⟩ := place
    cases (cycle?_of_sweeping? hk).symm.trans h

namespace Request

variable {request : Request} {mounts : MountTable Nat} {clock : Clock}

theorem Admits.of_error {error : CacheError} (h : error.isNotFound = false) : request.Admits (.failed error) := by
  cases request with
  | read => trivial
  | _ => exact h

theorem Admits.broken : request.Admits .broken := by
  cases request <;> trivial

namespace Admits

theorem of_written (h : request.Admits .written) : ∃ key data options, request = .write key data options := by
  cases request with
  | write key data options => exact ⟨key, data, options, rfl⟩
  | _ => exact h.elim

theorem of_dropped (h : request.Admits .dropped) : ∃ key data options, request = .write key data options := by
  cases request with
  | write key data options => exact ⟨key, data, options, rfl⟩
  | _ => exact h.elim

theorem of_record {record : Record} (h : request.Admits (.record record)) : ∃ key, request = .read key := by
  cases request with
  | read key => exact ⟨key, rfl⟩
  | _ => exact h.elim

theorem of_notFound {stored : String} (h : request.Admits (.failed (.notFound stored))) :
    ∃ key, request = .read key := by
  cases request with
  | read key => exact ⟨key, rfl⟩
  | _ => cases h

theorem of_deleted (h : request.Admits .deleted) : ∃ key, request = .delete key := by
  cases request with
  | delete key => exact ⟨key, rfl⟩
  | _ => exact h.elim

theorem of_swept {report : SweepReport} (h : request.Admits (.swept report)) : request = .sweep := by
  cases request with
  | sweep => rfl
  | _ => exact h.elim

end Admits

/-- A mount is looked for without a look at the records. -/
private theorem admits_of_place {key : String} {error : CacheError} (h : mounts.place key = .error error) :
    request.Admits (.failed error) := by
  refine .of_error ?_
  cases hkey : normalizeKey key with
  | error fault =>
    simp only [MountTable.place, hkey] at h
    cases h
    rfl
  | ok stored =>
    rw [MountTable.place_of_normalized hkey] at h
    rcases mounts.resolve_cases stored with ⟨hresolve, -⟩ | ⟨store, hresolve, -⟩
    · rw [hresolve] at h
      cases h
      rfl
    · rw [hresolve] at h
      cases h

private theorem admits_of_freshEntry {now : Option Instant} {key : String} {data : Bytes}
    {options : List WriteOption} {answer : Answer} (h : freshEntry now key data options = .error answer) :
    (Request.write key data options).Admits answer := by
  unfold freshEntry at h
  split at h
  next => cases h; rfl
  next => cases h; trivial
  next stored now _ =>
    rcases (Record.fresh data now).applyAll_cases options with ⟨hall, -⟩ | ⟨record, hall, -⟩
    · rw [hall] at h
      cases h
      rfl
    · rw [hall] at h
      dsimp only at h
      split at h
      next => cases h
      next => cases h; trivial

/-- What a request is answered before any lock is asked for. -/
theorem admits_of_route {answer : Answer} (h : request.route mounts clock = .error answer)
    (hr : request ≠ .sweep ∧ request ≠ .sweeper ∧ request ≠ .shutdown) : request.Admits answer := by
  cases request with
  | write key data options =>
    simp only [route] at h
    split at h
    next hfresh =>
      cases h
      exact admits_of_freshEntry hfresh
    next entry hfresh =>
      rcases mounts.resolve_cases entry.key with ⟨hresolve, -⟩ | ⟨store, hresolve, -⟩
      · rw [hresolve] at h
        cases h
        rfl
      · rw [hresolve] at h
        cases h
  | read key =>
    simp only [route] at h
    split at h
    next hplace =>
      cases h
      exact admits_of_place hplace
    next => cases h
  | delete key =>
    simp only [route] at h
    split at h
    next hplace =>
      cases h
      exact admits_of_place hplace
    next => cases h
  | calls => cases h
  | hold => cases h
  | sweep => exact absurd rfl hr.1
  | sweeper => exact absurd rfl hr.2.1
  | shutdown => exact absurd rfl hr.2.2

theorem pays_of_route {store : Nat} {visit : Visit} (h : request.route mounts clock = .ok (store, visit)) :
    request.Pays visit := by
  cases Request.routed h <;> trivial

theorem Sweeps.pays_list (h : request.Sweeps) (path : String) (cycle : SweepCycle) :
    request.Pays (.list path cycle) := by
  rcases h with rfl | rfl <;> trivial

theorem Sweeps.pays_evict (h : request.Sweeps) (key : String) (mount : MountSweep) (cycle : SweepCycle) :
    request.Pays (.evict key mount cycle) := by
  rcases h with rfl | rfl <;> trivial

namespace Pays

variable {visit : Visit}

theorem sweeps_of_list {path : String} {cycle : SweepCycle} (h : request.Pays (.list path cycle)) :
    request.Sweeps := by
  cases request with
  | sweep => exact .inl rfl
  | sweeper => exact .inr rfl
  | _ => exact h.elim

theorem sweeps_of_evict {key : String} {mount : MountSweep} {cycle : SweepCycle}
    (h : request.Pays (.evict key mount cycle)) : request.Sweeps := by
  cases request with
  | sweep => exact .inl rfl
  | sweeper => exact .inr rfl
  | _ => exact h.elim

theorem fail (h : request.Pays visit) {error : CacheError} (he : error.isNotFound = false) :
    request.Turns (visit.fail error) := by
  cases visit with
  | list => exact h.sweeps_of_list
  | evict => exact h.sweeps_of_evict
  | _ => exact Admits.of_error he

private theorem sweepOn (h : request.Sweeps) (path : String) (now : Instant) (cancelled : Bool)
    (report : SweepReport) (rest : List KeyRecord) (cycle : SweepCycle) :
    request.Turns (Visit.sweepOn path now cancelled report rest cycle) := by
  unfold Visit.sweepOn
  split
  next => exact h
  next => exact h.pays_evict ..

private theorem readOn {key key' : String} (now : Option Instant) (entry : Option KeyRecord) :
    (Request.read key').Turns (Visit.readOn key now entry) := by
  unfold Visit.readOn
  split
  next => trivial
  next =>
    split
    next => trivial
    next =>
      split
      next => trivial
      next => split <;> trivial

/-- What a request may come to after a reply. -/
theorem next (h : request.Pays visit) (clock : Clock) (cancelled : Bool) (reply : Reply) :
    request.Turns (visit.next clock cancelled reply) := by
  cases visit with
  | evict => exact sweepOn h.sweeps_of_evict ..
  | list path cycle =>
    cases reply with
    | listed entries =>
      show request.Turns (Visit.listOn path clock.read? cancelled entries cycle)
      unfold Visit.listOn
      split
      next => exact Admits.broken
      next => exact sweepOn h.sweeps_of_list ..
    | _ => exact h.sweeps_of_list
  | calls left replies =>
    show request.Turns (Visit.callsOn left.tail (replies ++ [reply]))
    unfold Visit.callsOn
    cases request with
    | calls => split <;> trivial
    | _ => exact h.elim
  | put =>
    cases request with
    | write => cases reply <;> trivial
    | _ => exact h.elim
  | get key =>
    cases request with
    | read =>
      cases reply with
      | found entry => exact readOn clock.read? entry
      | _ => trivial
    | _ => exact h.elim
  | burn =>
    cases request with
    | read => cases reply <;> trivial
    | _ => exact h.elim
  | delete =>
    cases request with
    | delete => cases reply <;> trivial
    | _ => exact h.elim
  | hold =>
    cases reply <;> exact Admits.of_error rfl

end Pays

theorem Turns.stands {turn : Visit.Turn} (h : request.Turns turn) : request.Stands turn.stage := by
  cases turn with
  | stay => trivial
  | _ => exact h

namespace Stands

variable {stage : Stage}

/-- Only sweeps go over the mounts. -/
theorem sweeps (h : request.Stands stage) {cycle : SweepCycle} (hc : stage.cycle? = some cycle) :
    request.Sweeps := by
  have hvisit {visit : Visit} (hp : request.Pays visit)
      (hv : (∃ path cycle, visit = .list path cycle) ∨ ∃ key mount cycle, visit = .evict key mount cycle) :
      request.Sweeps := by
    rcases hv with ⟨path, cycle, rfl⟩ | ⟨key, mount, cycle, rfl⟩
    · exact hp.sweeps_of_list
    · exact hp.sweeps_of_evict
  unfold Stage.cycle? Stage.sweeping? at hc
  split at hc
  next => exact h
  next =>
    split at hc
    next => exact hvisit h (.inl ⟨_, _, rfl⟩)
    next => exact hvisit h (.inr ⟨_, _, _, rfl⟩)
    next => exact hvisit h (.inl ⟨_, _, rfl⟩)
    next => exact hvisit h (.inr ⟨_, _, _, rfl⟩)
    next => exact hvisit h (.inl ⟨_, _, rfl⟩)
    next => exact hvisit h (.inr ⟨_, _, _, rfl⟩)
    next => cases hc

variable {c : Cache} {id : JobId} {job : Job} {old new : Stage} {shelves : List Shelf}

private theorem wants (h : job.request.Stands old) {store : Nat} {visit : Visit} (hw : Wants c job old store visit) :
    job.request.Pays visit := by
  cases hw with
  | call hroute => exact pays_of_route hroute
  | mount => exact Sweeps.pays_list h ..

private theorem visits {store : Nat} {shelf shelf' : Shelf} {visit : Visit} (h : request.Pays visit)
    (hv : Visits c id store shelf visit new shelf') : request.Stands new := by
  cases hv with
  | hold =>
    cases request with
    | hold => exact ⟨_, _, rfl⟩
    | _ => exact h.elim
  | pause => exact h
  | call => exact h
  | done =>
    cases request with
    | calls => trivial
    | _ => exact h.elim

private theorem aside (h : job.request.Stands old) (ha : Aside c job old new) : job.request.Stands new := by
  cases ha with
  | answer hroute hr => exact admits_of_route hroute hr
  | sweep hr => exact .inl hr
  | sweeper hr => exact hr
  | shutdown hr =>
    rw [hr]
    trivial
  | await hr => exact hr
  | swept _ hr =>
    rcases h with hsweep | hsweeper
    · rw [hsweep]
      trivial
    · exact absurd hsweeper hr
  | pause _ hr => exact hr
  | stop =>
    rw [show job.request = .sweeper from h]
    trivial
  | wake => exact .inr h
  | joined =>
    rw [show job.request = .shutdown from h]
    trivial

theorem step (h : job.request.Stands old) (ht : Transition c id job old new shelves) :
    job.request.Stands new := by
  cases ht with
  | aside ha => exact h.aside ha
  | refuse hw => exact ((h.wants hw).fail rfl).stands
  | cancel hw => exact ((h.wants hw).fail rfl).stands
  | queue hw => exact h.wants hw
  | enter hw _ _ _ _ hv => exact visits (h.wants hw) hv
  | grant _ _ _ hv => exact visits h hv
  | call => exact h
  | @stay _ _ reply _ _ _ _ _ hnext hv =>
    have hturn := Pays.next h c.clock (c.isCancelled job.token) reply
    rw [hnext] at hturn
    exact visits hturn hv
  | leave _ _ hl =>
    cases hl with
    | cancelled => exact (Pays.fail h rfl).stands
    | next hnext =>
      rw [← hnext]
      exact (Pays.next h ..).stands
    | held =>
      obtain ⟨store, ms, hr⟩ := h
      rw [hr]
      trivial

theorem expiry (h : request.Stands old) (he : Expiry c id old new shelves) : request.Stands new := by
  cases he with
  | skip hk => exact h.sweeps (Stage.cycle?_of_sweeping? hk)

end Stands

end Request

/-- In every run a job stands where its request may come to. -/
theorem Cache.stands_steps {first : Cache} (hu : first.Unused) (events : List Event) :
    (first.steps events).Stages Request.Stands := by
  have hnone : first.Stages Request.Stands := by
    intro id job hj
    rw [hu.jobs] at hj
    cases hj
  exact hnone.steps (fun _ => trivial) (fun _ _ _ _ _ ht h => h.step ht) (fun _ _ _ _ _ he h => h.expiry he)
    (.of_unused hu) events

end RoutedCache

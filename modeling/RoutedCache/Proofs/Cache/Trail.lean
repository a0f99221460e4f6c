import RoutedCache.Proofs.Cache.Ledger
import RoutedCache.Proofs.Cache.Routing

/-!
# The calls of one job

A write, a read or a delete makes one call to its store, and a read that has found a record to burn makes one more.
`Trail` says which calls a job has made at which stage, and `Outcome` how its answer follows from them.  Every
transition of the job keeps this (`Trail.step`), whatever fails; what the other jobs do is bounded by
`OtherStage`.
-/

namespace RoutedCache

/-- An answer of a call that comes without data and acknowledges nothing. -/
def Answer.IsPlain (answer : Answer) : Prop := answer ≠ .written ∧ ∀ record, answer ≠ .record record

/-- The request writes the record, at some time. -/
def Request.Makes (request : Request) (entry : KeyRecord) : Prop :=
  ∃ now key data options, request = .write key data options ∧ freshEntry now key data options = .ok entry

section

variable (request : Request)

/-- The visit with which the request begins. -/
inductive FirstVisit : Visit → Prop
  | put {entry} (h : request.Makes entry) : FirstVisit (.put entry)
  | get {key} (h : ∃ key', request = .read key') : FirstVisit (.get key)
  | delete {key} (h : ∃ key', request = .delete key') : FirstVisit (.delete key)

/-- The calls of a job that is over, the latest first, with their replies, and its answer. -/
inductive Outcome : List (StoreCall × Reply) → Answer → Prop
  | refused {answer} (h : answer.IsPlain) : Outcome [] answer
  | failed {call fault} : Outcome [(call, .failed fault)] (.failed (.backend fault))
  | written {entry} (h : request.Makes entry) : Outcome [(.put entry, .done)] .written
  | deleted {key} : Outcome [(.delete key, .done)] .deleted
  | missed {key entry answer} (h : answer.IsPlain) : Outcome [(.get key, .found entry)] answer
  | read {key entry} (hr : ∃ key', request = .read key') (hb : entry.record.metadata.burnAfterReading = false) :
      Outcome [(.get key, .found (some entry))] (.record entry.record)
  | burned {key entry} (hr : ∃ key', request = .read key')
      (hb : entry.record.metadata.burnAfterReading = true) :
      Outcome [(.delete key, .done), (.get key, .found (some entry))] (.record entry.record)
  | unburned {key entry fault} :
      Outcome [(.delete key, .failed fault), (.get key, .found (some entry))] (.failed (.backend fault))

/-- The calls of a job at a stage, the latest first, with their replies. -/
inductive Trail : Stage → List (StoreCall × Reply) → Prop
  | ready : Trail .ready []
  | queued {store visit} (h : FirstVisit request visit) : Trail (.queued store visit) []
  | pausing {store visit due} (h : FirstVisit request visit) : Trail (.pausing store visit due) []
  | returned {store visit call reply held} (h : FirstVisit request visit) (hc : visit.call? = some call)
      (hf : reply.Fair held call) : Trail (.returned store visit reply) [(call, reply)]
  | toBurn {store key entry due} (hr : ∃ key', request = .read key')
      (hb : entry.record.metadata.burnAfterReading = true) :
      Trail (.pausing store (.burn key entry.record) due) [(.get key, .found (some entry))]
  | burn {store key entry reply held} (hr : ∃ key', request = .read key')
      (hb : entry.record.metadata.burnAfterReading = true) (hf : reply.Fair held (.delete key)) :
      Trail (.returned store (.burn key entry.record) reply)
        [(.delete key, reply), (.get key, .found (some entry))]
  | finished {answer calls} (h : Outcome request calls answer) : Trail (.finished answer) calls

/-- What a job other than a write, a read or a delete does in a store. -/
def OtherVisit : Visit → Prop
  | .list .. | .evict .. | .hold _ => True
  | .calls left _ => ∃ store calls, request = .calls store calls ∧ ∀ call ∈ left, call ∈ calls
  | _ => False

/-- How a job other than a write, a read or a delete goes on after a reply. -/
def OtherTurn : Visit.Turn → Prop
  | .stay visit => OtherVisit request visit
  | .answer answer => answer.IsPlain
  | .move _ => True

/-- The stage of a job other than a write, a read or a delete. -/
def OtherStage : Stage → Prop
  | .queued _ visit | .pausing _ visit _ | .returned _ visit _ => OtherVisit request visit
  | .finished answer => answer.IsPlain
  | _ => True

end

/-! ### The first visit -/

variable {request : Request} {mounts : MountTable Nat} {clock : Clock} {store : Nat} {visit : Visit}

theorem Request.firstVisit (h : request.route mounts clock = .ok (store, visit)) (hcall : request.IsCall) :
    FirstVisit request visit := by
  cases routed h with
  | write hfresh => exact .put ⟨_, _, _, _, rfl, hfresh⟩
  | read => exact .get ⟨_, rfl⟩
  | delete => exact .delete ⟨_, rfl⟩
  | calls => exact hcall.elim
  | hold => exact hcall.elim

theorem Answer.isPlain_failed (error : CacheError) : (Answer.failed error).IsPlain := by simp [IsPlain]

theorem Answer.isPlain_broken : Answer.broken.IsPlain := by simp [IsPlain]

theorem Request.isPlain_of_freshEntry {now : Option Instant} {key : String} {data : Bytes}
    {options : List WriteOption} {answer : Answer} (h : freshEntry now key data options = .error answer) :
    answer.IsPlain := by
  unfold freshEntry at h
  split at h
  next => cases h; exact Answer.isPlain_failed _
  next => cases h; exact Answer.isPlain_broken
  next =>
    split at h
    next => cases h; exact Answer.isPlain_failed _
    next =>
      split at h
      next => cases h
      next => cases h; simp [Answer.IsPlain]

/-- A request that is answered before any lock is asked for is answered without data. -/
theorem Request.isPlain_of_route {answer : Answer} (h : request.route mounts clock = .error answer) :
    answer.IsPlain := by
  cases request with
  | write key data options =>
    simp only [route] at h
    split at h
    next hfresh => cases h; exact isPlain_of_freshEntry hfresh
    next =>
      split at h
      next => cases h; exact Answer.isPlain_failed _
      next => cases h
  | read key =>
    simp only [route] at h
    split at h
    next => cases h; exact Answer.isPlain_failed _
    next => cases h
  | delete key =>
    simp only [route] at h
    split at h
    next => cases h; exact Answer.isPlain_failed _
    next => cases h
  | calls store left => cases h
  | hold store ms => cases h
  | _ => cases h; simp [Answer.IsPlain]

namespace FirstVisit

theorem fail (h : FirstVisit request visit) (error : CacheError) :
    visit.fail error = .answer (.failed error) := by
  cases h <;> rfl

/-- The reply to the first call ends the job, or the job is a read that has found a record to burn. -/
theorem next {call : StoreCall} {reply : Reply} {held : String → Option KeyRecord}
    (h : FirstVisit request visit)
    (hc : visit.call? = some call) (hf : reply.Fair held call) (clock : Clock) (cancelled : Bool) :
    (∃ answer, visit.next clock cancelled reply = .answer answer ∧ Outcome request [(call, reply)] answer) ∨
      ∃ key entry, visit.next clock cancelled reply = .stay (.burn key entry.record) ∧
        (∃ key', request = .read key') ∧ entry.record.metadata.burnAfterReading = true ∧
        call = .get key ∧ reply = .found (some entry) := by
  cases h with
  | put h =>
    cases hc
    rcases hf with rfl | ⟨fault, rfl⟩
    · exact .inl ⟨_, rfl, .written h⟩
    · exact .inl ⟨_, rfl, .failed⟩
  | delete h =>
    cases hc
    rcases hf with rfl | ⟨fault, rfl⟩
    · exact .inl ⟨_, rfl, .deleted⟩
    · exact .inl ⟨_, rfl, .failed⟩
  | @get key h =>
    cases hc
    rcases hf with rfl | ⟨fault, rfl⟩
    · show (∃ answer, Visit.readOn key clock.read? (held key) = .answer answer ∧ _) ∨ _
      cases hheld : held key with
      | none => exact .inl ⟨_, rfl, .missed (Answer.isPlain_failed _)⟩
      | some entry =>
        cases hnow : clock.read? with
        | none => exact .inl ⟨_, rfl, .missed Answer.isPlain_broken⟩
        | some now =>
          cases hvalid : entry.record.isValidAt now with
          | false =>
            refine .inl ⟨.failed (.notFound key), ?_, .missed (Answer.isPlain_failed _)⟩
            simp [Visit.readOn, hvalid]
          | true =>
            cases hburn : entry.record.metadata.burnAfterReading with
            | false =>
              refine .inl ⟨.record entry.record, ?_, .read h hburn⟩
              simp [Visit.readOn, hvalid, hburn]
            | true =>
              refine .inr ⟨key, entry, ?_, h, hburn, rfl, rfl⟩
              simp [Visit.next, Visit.readOn, hnow, hvalid, hburn]
    · exact .inl ⟨_, rfl, .failed⟩

end FirstVisit

/-! ### Transitions -/

/-- The call that a job at this stage has just made, if any, with its reply. -/
def Stage.latest (stage : Stage) : List (StoreCall × Reply) := stage.made?.toList.map (·.2)

@[simp] theorem Visit.Turn.latest_stage (turn : Visit.Turn) : turn.stage.latest = [] := by
  cases turn <;> rfl

theorem Stage.latest_returned {reply : Reply} {call : StoreCall} (h : visit.call? = some call) :
    (Stage.returned store visit reply).latest = [(call, reply)] := by
  simp [latest, made?, h]

variable {c : Cache} {id : JobId} {job : Job} {shelf shelf' : Shelf} {old new : Stage} {shelves : List Shelf}
  {mine : List (StoreCall × Reply)}

namespace Trail

theorem visits (h : FirstVisit request visit) (hv : Visits c id store shelf visit new shelf') :
    Trail request new (new.latest ++ []) := by
  cases hv with
  | hold => cases h
  | pause => exact .pausing h
  | call hc =>
    rw [Stage.latest_returned hc]
    exact .returned h hc (Shelf.fair_perform shelf _)
  | done => cases h

theorem visits_burn {key : String} {entry : KeyRecord} (hr : ∃ key', request = .read key')
    (hb : entry.record.metadata.burnAfterReading = true)
    (hv : Visits c id store shelf (.burn key entry.record) new shelf') :
    Trail request new (new.latest ++ [(.get key, .found (some entry))]) := by
  cases hv with
  | pause => exact .toBurn hr hb
  | call hc =>
    cases hc
    exact .burn hr hb (Shelf.fair_perform shelf _)

/-- What a call that is about to ask for a lock is about to do. -/
theorem firstVisit (h : Trail job.request old mine) (hcall : job.request.IsCall)
    (hw : Wants c job old store visit) :
    mine = [] ∧ FirstVisit job.request visit := by
  cases hw with
  | call hroute =>
    cases h
    exact ⟨rfl, Request.firstVisit hroute hcall⟩
  | mount => cases h

/-- A transition adds the call that it makes to the trail of its job. -/
theorem step (h : Trail job.request old mine) (hcall : job.request.IsCall)
    (ht : Transition c id job old new shelves) : Trail job.request new (new.latest ++ mine) := by
  have hnot {r : Request} (hr : job.request = r) : r.IsCall := hr ▸ hcall
  cases ht with
  | aside ha =>
    cases ha with
    | answer hroute =>
      cases h
      exact .finished (.refused (Request.isPlain_of_route hroute))
    | sweep hr => exact (hnot hr).elim
    | sweeper hr => exact (hnot hr).elim
    | shutdown hr => exact (hnot hr).elim
    | await hr => exact (hnot hr).elim
    | _ => cases h
  | refuse hw =>
    obtain ⟨rfl, hfirst⟩ := h.firstVisit hcall hw
    rw [hfirst.fail]
    exact .finished (.refused (Answer.isPlain_failed _))
  | cancel hw =>
    obtain ⟨rfl, hfirst⟩ := h.firstVisit hcall hw
    rw [hfirst.fail]
    exact .finished (.refused (Answer.isPlain_failed _))
  | queue hw =>
    obtain ⟨rfl, hfirst⟩ := h.firstVisit hcall hw
    exact .queued hfirst
  | enter hw _ _ _ _ hv =>
    obtain ⟨rfl, hfirst⟩ := h.firstVisit hcall hw
    exact visits hfirst hv
  | grant _ _ _ hv =>
    cases h with
    | queued hfirst => exact visits hfirst hv
  | call _ hc =>
    rw [Stage.latest_returned hc]
    cases h with
    | pausing hfirst => exact .returned hfirst hc (Shelf.fair_perform _ _)
    | toBurn hr hb =>
      cases hc
      exact .burn hr hb (Shelf.fair_perform _ _)
  | stay _ hstay hv =>
    cases h with
    | returned hfirst hc hf =>
      rcases hfirst.next hc hf c.clock (c.isCancelled job.token) with
        ⟨answer, heq, -⟩ | ⟨key, entry, heq, hr, hb, rfl, rfl⟩
      · rw [heq] at hstay
        cases hstay
      · rw [heq] at hstay
        cases hstay
        exact visits_burn hr hb hv
    | burn hr hb hf => rcases hf with rfl | ⟨fault, rfl⟩ <;> cases hstay
  | leave _ _ hl =>
    rw [Visit.Turn.latest_stage, List.nil_append]
    cases hl with
    | cancelled =>
      cases h with
      | queued hfirst =>
        rw [hfirst.fail]
        exact .finished (.refused (Answer.isPlain_failed _))
    | next hnext hstay =>
      subst hnext
      cases h with
      | returned hfirst hc hf =>
        rcases hfirst.next hc hf c.clock (c.isCancelled job.token) with
          ⟨answer, heq, hout⟩ | ⟨key, entry, heq, -⟩
        · rw [heq]
          exact .finished hout
        · exact absurd heq (hstay _)
      | burn hr hb hf =>
        rcases hf with rfl | ⟨fault, rfl⟩
        · exact .finished (.burned hr hb)
        · exact .finished .unburned
    | held => cases h

/-- A job outside the stores that is not over has made no calls. -/
theorem eq_nil (h : Trail request old mine) (hi : old.inside? = none) (ho : ∀ answer, old ≠ .finished answer) :
    mine = [] := by
  cases h with
  | ready => rfl
  | queued => rfl
  | finished => exact absurd rfl (ho _)
  | _ => cases hi

theorem sweeping? (h : Trail request old mine) : old.sweeping? = none := by
  cases h with
  | queued hfirst => cases hfirst <;> rfl
  | pausing hfirst => cases hfirst <;> rfl
  | returned hfirst => cases hfirst <;> rfl
  | _ => rfl

end Trail

namespace OtherStage

private theorem visits (h : OtherVisit request visit) (hv : Visits c id store shelf visit new shelf') :
    OtherStage request new := by
  cases hv with
  | hold => trivial
  | pause => exact h
  | call => exact h
  | done => simp [OtherStage, Answer.IsPlain]

private theorem fail (h : OtherVisit request visit) (error : CacheError) :
    OtherStage request (visit.fail error).stage := by
  cases visit with
  | calls => exact Answer.isPlain_failed _
  | hold => exact Answer.isPlain_failed _
  | list => trivial
  | evict => trivial
  | _ => exact h.elim

private theorem otherVisit (hcall : ¬job.request.IsCall) (hw : Wants c job old store visit) :
    OtherVisit job.request visit := by
  cases hw with
  | mount => trivial
  | call hroute =>
    generalize job.request = request at hcall hroute
    cases Request.routed hroute with
    | @calls _ left => exact ⟨store, left, rfl, fun _ h => h⟩
    | hold => trivial
    | _ => exact absurd trivial hcall

private theorem sweepOn (path : String) (now : Instant) (cancelled : Bool) (report : SweepReport)
    (rest : List KeyRecord) (cycle : SweepCycle) :
    OtherTurn request (Visit.sweepOn path now cancelled report rest cycle) := by
  unfold Visit.sweepOn
  split <;> trivial

private theorem next (h : OtherVisit request visit) (clock : Clock) (cancelled : Bool) (reply : Reply) :
    OtherTurn request (visit.next clock cancelled reply) := by
  cases visit with
  | list path cycle =>
    cases reply with
    | listed entries =>
      show OtherTurn request (Visit.listOn path clock.read? cancelled entries cycle)
      unfold Visit.listOn
      split
      next => exact Answer.isPlain_broken
      next => exact sweepOn ..
    | _ => trivial
  | evict key mount cycle => exact sweepOn ..
  | calls left replies =>
    obtain ⟨store, calls, hr, hall⟩ := h
    show OtherTurn request (Visit.callsOn left.tail (replies ++ [reply]))
    unfold Visit.callsOn
    split
    next => simp [OtherTurn, Answer.IsPlain]
    next => exact ⟨store, calls, hr, fun call hc => hall call (List.mem_of_mem_tail hc)⟩
  | hold ms => cases reply <;> exact Answer.isPlain_failed _
  | _ => exact h.elim

private theorem turn {turn : Visit.Turn} (h : OtherTurn request turn) : OtherStage request turn.stage := by
  cases turn with
  | answer => exact h
  | _ => trivial

/-- A transition of another job ends without data, and it does nothing but what other jobs do. -/
theorem step (h : OtherStage job.request old) (hcall : ¬job.request.IsCall)
    (ht : Transition c id job old new shelves) : OtherStage job.request new := by
  cases ht with
  | aside ha =>
    cases ha with
    | answer hroute => exact Request.isPlain_of_route hroute
    | shutdown => simp [OtherStage, Answer.IsPlain]
    | swept => simp [OtherStage, Answer.IsPlain]
    | stop => simp [OtherStage, Answer.IsPlain]
    | joined => simp [OtherStage, Answer.IsPlain]
    | _ => trivial
  | refuse hw => exact fail (otherVisit hcall hw) _
  | cancel hw => exact fail (otherVisit hcall hw) _
  | queue hw => exact otherVisit hcall hw
  | enter hw _ _ _ _ hv => exact visits (otherVisit hcall hw) hv
  | grant _ _ _ hv => exact visits h hv
  | call => exact h
  | @stay _ _ reply _ _ _ _ _ hstay hv =>
    have hturn := next h c.clock (c.isCancelled job.token) reply
    rw [hstay] at hturn
    exact visits hturn hv
  | leave _ _ hl =>
    cases hl with
    | cancelled => exact fail h _
    | next hnext hstay =>
      subst hnext
      exact turn (next h c.clock (c.isCancelled job.token) _)
    | held => simp [OtherStage, Visit.Turn.stage, Answer.IsPlain]

end OtherStage

end RoutedCache

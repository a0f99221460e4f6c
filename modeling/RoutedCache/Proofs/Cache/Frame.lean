import RoutedCache.Proofs.Cache.Touch

/-!
# Calls and the entries of other keys

A write, a read or a delete is about one entry: that of its key in the store that is mounted at the leading
segment (`Request.target?`).  Whatever its turns do to the stores of a cache, they do to this entry
(`SameBut`); a read does nothing to it but remove the record with which it answers, and a write that is
dropped does nothing at all (`Cache.touches_own_key`).
-/

namespace RoutedCache

/-- The store and the key of the entry that a call is about: the store that is mounted at the leading segment
of its key, and the key without slashes at its ends. -/
def Request.target? (mounts : MountTable Nat) : Request → Option (Nat × String)
  | .write key _ _ | .read key | .delete key =>
    (mounts.byPath.get? (leadingSegment (trimSlashes key))).map (·, trimSlashes key)
  | _ => none

/-- The key of a write, a read or a delete, as it is spelled in the request. -/
def Request.spelling? : Request → Option String
  | .write key _ _ | .read key | .delete key => some key
  | _ => none

section

variable {request : Request} {text : String} (h : request.spelling? = some text)

include h

theorem Request.isCall_of_spelling? : request.IsCall := by
  cases request with
  | write => trivial
  | read => trivial
  | delete => trivial
  | _ => cases h

theorem Request.target?_of_spelling? {mounts : MountTable Nat} : request.target? mounts =
    (mounts.byPath.get? (leadingSegment (trimSlashes text))).map (·, trimSlashes text) := by
  cases request with
  | write => cases h; rfl
  | read => cases h; rfl
  | delete => cases h; rfl
  | _ => cases h

end

/-- The stores differ in the entry of the target at most. -/
def SameBut (target : Option (Nat × String)) (stores stores' : List Store) : Prop :=
  ∀ s : Nat, stores'[s]? = stores[s]? ∨ ∃ key store store', target = some (s, key) ∧ stores[s]? = some store ∧
    stores'[s]? = some store' ∧ store.SameBut key store'

namespace SameBut

variable {target : Option (Nat × String)} {stores stores' stores'' : List Store}

theorem refl (target : Option (Nat × String)) (stores : List Store) : SameBut target stores stores :=
  fun _ => .inl rfl

theorem trans (h : SameBut target stores stores') (h' : SameBut target stores' stores'') :
    SameBut target stores stores'' := by
  intro s
  rcases h' s with hsame' | ⟨key, store', store'', htarget, hs', hs'', hbut'⟩
  · rw [hsame']
    exact h s
  · rcases h s with hsame | ⟨key', store, other, htarget', hs, hother, hbut⟩
    · rw [hsame] at hs'
      exact .inr ⟨key, store', store'', htarget, hs', hs'', hbut'⟩
    · rw [htarget] at htarget'
      cases htarget'
      rw [hs'] at hother
      cases hother
      exact .inr ⟨key, store, store'', htarget, hs, hs'', hbut.trans hbut'⟩

theorem perform {s : Nat} {key : String} {store : Store} {call : StoreCall} (hs : stores[s]? = some store)
    (hc : call.key? = some key) : SameBut (some (s, key)) stores (stores.set s (store.perform call).2) := by
  intro s'
  by_cases hne : s' = s
  · subst hne
    have hlt := (List.getElem?_eq_some_iff.1 hs).1
    exact .inr ⟨key, store, _, rfl, hs, List.getElem?_set_self hlt, store.sameBut_perform hc⟩
  · exact .inl (List.getElem?_set_ne (Ne.symm hne))

end SameBut

theorem MountTable.get?_of_resolve {mounts : MountTable Nat} {key path : String} {store : Nat}
    (h : mounts.resolve key = .ok (path, store)) : mounts.byPath.get? (leadingSegment key) = some store := by
  obtain ⟨hpath, hmem⟩ := resolve_eq_ok_iff.1 h
  rw [hpath]
  exact mem_mounts_iff.1 hmem

/-- The answer of a call that was acknowledged in this visit. -/
def Visit.acknowledged : Visit → Answer
  | put _ => .written
  | burn _ record => .record record
  | _ => .deleted

namespace Course

variable {mounts : MountTable Nat} {request : Request} {course : Course} {s : Nat} {visit : Visit}
  {call : StoreCall}

/-- Whatever a call asks of a store is about its target. -/
theorem Due.target (hd : course.Due mounts request s visit) (hcall : request.IsCall)
    (hc : visit.call? = some call) :
    ∃ key, request.target? mounts = some (s, key) ∧ call.key? = some key := by
  have hread {key stored : String} {visit : Visit}
      (hr : (Request.read key).route mounts course.began = .ok (s, visit))
      (hvisit : visit = .get stored) : (Request.read key).target? mounts = some (s, stored) := by
    subst hvisit
    cases Request.routed hr with
    | read hkey hmount =>
      obtain rfl := normalizeKey_eq_ok hkey
      simp [Request.target?, MountTable.get?_of_resolve hmount]
  cases hd with
  | first hr =>
    cases Request.routed hr with
    | @write key data options entry path store hfresh hmount =>
      cases hc
      refine ⟨entry.key, ?_, rfl⟩
      obtain ⟨_, -, hkey, -⟩ := Request.freshEntry_eq_ok hfresh
      rw [normalizeKey_eq_ok hkey] at hmount ⊢
      simp [Request.target?, MountTable.get?_of_resolve hmount]
    | read hkey hmount =>
      cases hc
      exact ⟨_, hread hr rfl, rfl⟩
    | delete hkey hmount =>
      cases hc
      obtain rfl := normalizeKey_eq_ok hkey
      refine ⟨_, ?_, rfl⟩
      simp [Request.target?, MountTable.get?_of_resolve hmount]
    | calls => exact hcall.elim
    | hold => exact hcall.elim
  | burn hr hreq =>
    cases hc
    subst hreq
    exact ⟨_, hread hr rfl, rfl⟩

/-- An acknowledged call is the last one of its job, which tells of it in its answer. -/
theorem Due.next_done (hd : course.Due mounts request s visit) (hcall : request.IsCall)
    (hc : visit.call? = some call) {held : String → Option KeyRecord}
    (hf : Reply.Fair held .done call) (clock : Clock) (cancelled : Bool) :
    visit.next clock cancelled .done = .answer visit.acknowledged := by
  cases hd with
  | first hr =>
    cases Request.routed hr with
    | write => rfl
    | read =>
      cases hc
      rcases hf with heq | ⟨_, heq⟩ <;> cases heq
    | delete => rfl
    | calls => exact hcall.elim
    | hold => exact hcall.elim
  | burn => rfl

end Course

namespace Cache

variable {c first : Cache} {id : JobId} {job : Job} {event : Event}

/-- An event that is the turn of no job changes no store. -/
theorem LocksSound.stores_same (h : c.LocksSound) (hm : ∀ j, ¬event.Moves j) :
    (c.step event).stores = c.stores := by
  have heffect := h.effect event
  generalize c.step event = c' at heffect ⊢
  cases heffect with
  | start => rfl
  | turn hmoves => exact absurd hmoves (hm _)
  | skip hmoves => exact absurd hmoves (hm _)
  | complete _ hs => exact storesOn_set hs rfl
  | aside => rfl

/-- Every job stands where it may, given what it has been asked. -/
def Stages (c : Cache) (P : Request → Stage → Prop) : Prop :=
  ∀ (id : JobId) (job : Job), c.jobs[id]? = some job → P job.request job.stage

section Stages

variable {P : Request → Stage → Prop} (hready : ∀ request, P request .ready)
  (hturn : ∀ (c : Cache) (id : JobId) (job : Job) (new : Stage) (shelves : List Shelf),
    Transition c id job job.stage new shelves → P job.request job.stage → P job.request new)
  (hskip : ∀ (c : Cache) (id : JobId) (job : Job) (new : Stage) (shelves : List Shelf),
    Expiry c id job.stage new shelves → P job.request job.stage → P job.request new)

include hready hturn hskip

theorem Stages.step (hp : c.Stages P) (h : c.LocksSound) (event : Event) : (c.step event).Stages P := by
  intro i job hi
  have heffect := h.effect event
  generalize c.step event = c' at heffect hi
  have hsettle {id : JobId} {old : Job} {new : Stage} {shelves : List Shelf} {cancelled : List Token}
      {sweeper : Option JobId} (hj : c.jobs[id]? = some old) (hnew : P old.request new)
      (hi : ({ c with shelves, cancelled, sweeper }.settle id old.stage new).jobs[i]? = some job) :
      P job.request job.stage := by
    rw [getElem?_settle hj] at hi
    split at hi
    next => exact Option.some.inj hi ▸ hnew
    next => exact hp i job hi
  cases heffect with
  | start =>
    rw [List.getElem?_append] at hi
    split at hi
    next => exact hp i job hi
    next =>
      have hnew := List.mem_of_getElem? hi
      rw [List.mem_singleton.1 hnew]
      exact hready _
  | turn _ hj ht => exact hsettle hj (hturn _ _ _ _ _ ht (hp _ _ hj)) hi
  | skip _ hj he => exact hsettle hj (hskip _ _ _ _ _ he (hp _ _ hj)) hi
  | complete | aside => exact hp i job hi

theorem Stages.steps (hp : c.Stages P) (h : c.LocksSound) (events : List Event) :
    (c.steps events).Stages P := by
  induction events generalizing c with
  | nil => exact hp
  | cons event events ih => exact ih (hp.step hready hturn hskip h event) (h.step event)

end Stages

/-- The calls that a write, a read or a delete has made are those of its trail. -/
theorem trail_steps (hu : first.Unused) {events : List Event} (hj : (first.steps events).jobs[id]? = some job)
    (hcall : job.request.IsCall) : ∃ mine, Trail job.request job.stage mine := by
  have hstages : (first.steps events).Stages fun request stage => request.IsCall → ∃ mine,
      Trail request stage mine := by
    have hnone : first.Stages fun request stage => request.IsCall → ∃ mine, Trail request stage mine := by
      intro id job hj
      rw [hu.jobs] at hj
      cases hj
    refine hnone.steps (fun _ _ => ⟨[], .ready⟩) ?_ ?_ (.of_unused hu) events
    · intro c id job new shelves ht hold hcall
      obtain ⟨mine, htrail⟩ := hold hcall
      exact ⟨_, htrail.step hcall ht⟩
    · intro c id job new shelves he hold hcall
      obtain ⟨mine, htrail⟩ := hold hcall
      cases he with
      | skip hk =>
        rw [htrail.sweeping?] at hk
        cases hk
  exact hstages id job hj hcall

/-- A job other than a write, a read or a delete does nothing but what such jobs do. -/
theorem otherStage_steps (hu : first.Unused) {events : List Event}
    (hj : (first.steps events).jobs[id]? = some job) (hcall : ¬job.request.IsCall) :
    OtherStage job.request job.stage := by
  have hnone : first.Stages fun request stage => ¬request.IsCall → OtherStage request stage := by
    intro id job hj
    rw [hu.jobs] at hj
    cases hj
  exact hnone.steps (fun _ _ => trivial) (fun _ _ _ _ _ ht h hcall => (h hcall).step hcall ht)
    (fun _ _ _ _ _ he _ _ => by cases he; trivial) (.of_unused hu) events id job hj hcall

/-- In this turn of a call its store has acknowledged what it asked for. -/
structure Acknowledges (first : Cache) (before : List Event) (id : JobId) (request : Request) (s : Nat)
    (key : String) (visit : Visit) : Prop where
  target : request.target? first.mounts = some (s, key)
  stores : ∃ call store, visit.call? = some call ∧ call.key? = some key ∧
    (first.steps before).stores[s]? = some store ∧
    (store.perform call).1 = .done ∧
    (first.steps (before ++ [.run id])).stores = (first.steps before).stores.set s (store.perform call).2
  stage : (first.steps (before ++ [.run id])).stage? id = some (.returned s visit .done)
  course : ∃ course : Course, course.Due first.mounts request s visit ∧
    first.course (before ++ [.run id]) id = course.answered .done
  next : ∀ clock cancelled, visit.next clock cancelled .done = .answer visit.acknowledged
  once : ∀ key record, visit = .burn key record → record.metadata.burnAfterReading = true

section Turns

variable (hu : first.Unused) {before : List Event}

include hu

/-- A call that comes out of a turn with an acknowledgement has had it from its store. -/
theorem Acknowledges.of_returned (hj : (first.steps (before ++ [.run id])).jobs[id]? = some job)
    (hcall : job.request.IsCall) {s : Nat} {visit : Visit} (hstage : job.stage = .returned s visit .done)
    {call : StoreCall} {store : Store} (hc : visit.call? = some call) (hs : (first.steps before).stores[s]? = some store)
    (hd : (store.perform call).1 = .done) (hstores : (first.steps (before ++ [.run id])).stores =
      (first.steps before).stores.set s (store.perform call).2) :
    ∃ key, first.Acknowledges before id job.request s key visit := by
  have hsound := sound_course hu hj hcall
  rw [hstage] at hsound
  generalize hcourse : first.course (before ++ [.run id]) id = course at hsound
  cases hsound with
  | returned hl hdue hc' hf =>
    rw [hc] at hc'
    cases hc'
    obtain ⟨key, htarget, hkey⟩ := hdue.target hcall hc
    refine ⟨key, htarget, ⟨call, store, hc, hkey, hs, hd, hstores⟩, by rw [stage?_eq hj, hstage], ⟨_, hdue, hcourse⟩,
      hdue.next_done hcall hc hf, ?_⟩
    rintro key record rfl
    obtain ⟨mine, htrail⟩ := trail_steps hu hj hcall
    rw [hstage] at htrail
    cases htrail with
    | returned hfirst => cases hfirst
    | burn _ hb => exact hb

/-- A turn of a call changes no store, or its store has acknowledged what it asked for. -/
theorem acknowledges_turn (hj : (first.steps before).jobs[id]? = some job) (hcall : job.request.IsCall)
    (hm : event.Moves id) : (first.steps (before ++ [event])).stores = (first.steps before).stores ∨
      event = .run id ∧ ∃ s key visit, first.Acknowledges before id job.request s key visit := by
  rcases ((LocksSound.of_unused hu).steps before).moved hj hm with hsame | ⟨rfl, ht, hstores, hafter⟩ | ⟨-, -, hstores, -⟩
  · rw [steps_snoc, hsame]
    exact .inl rfl
  · rw [← steps_snoc] at hstores hafter
    have htouches := ht.touches
    cases htouches with
    | rest h => exact .inl (hstores.trans h)
    | @call s visit call store hc hs hd h =>
      obtain ⟨key, hack⟩ := Acknowledges.of_returned hu hafter hcall rfl hc hs hd (hstores.trans h)
      exact .inr ⟨rfl, s, key, visit, hack⟩
  · rw [steps_snoc]
    exact .inl hstores

end Turns

/-! ### Whole calls -/

/-- By this turn a read has removed its entry: the record there was valid when the read looked at it and was
to be read once, and the read has no other answer than this record. -/
structure Burns (first : Cache) (events : List Event) (id : JobId) (job : Job) (s : Nat) (key : String)
    (record : Record) (now : Instant) : Prop where
  target : job.request.target? first.mounts = some (s, key)
  removed : ∀ store, (first.steps events).stores[s]? = some store → store.cell? key = none
  once : record.metadata.burnAfterReading = true
  seen : (first.course events id).seen = some now
  valid : record.isValidAt now = true
  answer : ∀ answer, job.stage = .finished answer → answer = .record record

/-- What a call does to the stores of a cache in a run. -/
structure TouchesOwnKey (first : Cache) (events : List Event) (id : JobId) (job : Job) : Prop where
  /-- While no other job has its turn, no entry changes but that of the call. -/
  frame : ∀ before during after, events = before ++ during ++ after →
    (∀ event ∈ during, ∀ j, event.Moves j → j = id) →
    SameBut (job.request.target? first.mounts) (first.steps before).stores
      (first.steps (before ++ during)).stores
  reads : ∀ key, job.request = .read key → ∀ before event after, events = before ++ event :: after →
    event.Moves id → (first.steps (before ++ [event])).stores = (first.steps before).stores ∨
      ∃ s stored record now, first.Burns (before ++ [event]) id job s stored record now
  dropped : job.stage = .finished .dropped → ∀ before event after, events = before ++ event :: after →
    event.Moves id → (first.steps (before ++ [event])).stores = (first.steps before).stores

section Whole

variable (hu : first.Unused) {events : List Event} (hj : (first.steps events).jobs[id]? = some job)
  (hcall : job.request.IsCall)

include hu hj hcall

/-- A turn of a call in a longer run changes no store, or its store has acknowledged what it asked for.  The
call is then over with the answer that says so, or it still has to be answered. -/
theorem acknowledges_of_turn {before after : List Event} (hsplit : events = before ++ event :: after)
    (hm : event.Moves id) : (first.steps (before ++ [event])).stores = (first.steps before).stores ∨
      event = .run id ∧ ∃ s key visit, first.Acknowledges before id job.request s key visit ∧
        ∀ answer, job.stage = .finished answer → answer = visit.acknowledged := by
  have hlocks := LocksSound.of_unused hu
  cases hbefore : (first.steps before).jobs[id]? with
  | none =>
    rw [steps_snoc, step_absent hbefore hm]
    exact .inl rfl
  | some old =>
    subst hsplit
    rw [steps_append] at hj
    have hrequest := ((hlocks.steps before).job_before hbefore hj).1
    rw [← steps_append] at hj
    rcases acknowledges_turn hu hbefore (hrequest ▸ hcall) hm with hsame | ⟨rfl, s, key, visit, hack⟩
    · exact .inl hsame
    · rw [hrequest] at hack
      refine .inr ⟨rfl, s, key, visit, hack, fun answer hs => ?_⟩
      have hlast := (hlocks.steps (before ++ [.run id])).acknowledged_steps hack.stage hack.next after
      rw [← steps_append, List.append_assoc, List.singleton_append, stage?_eq hj, hs] at hlast
      simpa using hlast

/-- A write that is dropped leaves the stores alone in all its turns. -/
theorem stores_of_dropped (hdropped : job.stage = .finished .dropped) {before after : List Event}
    (hsplit : events = before ++ event :: after) (hm : event.Moves id) :
    (first.steps (before ++ [event])).stores = (first.steps before).stores := by
  rcases acknowledges_of_turn hu hj hcall hsplit hm with hsame | ⟨-, s, key, visit, -, hanswer⟩
  · exact hsame
  · have hacknowledged := hanswer .dropped hdropped
    cases visit <;> cases hacknowledged

/-- A stretch of the run in which no other job has a turn changes the entry of the call at most. -/
theorem sameBut_during {before during after : List Event} (hsplit : events = before ++ during ++ after)
    (hown : ∀ event ∈ during, ∀ j, event.Moves j → j = id) :
    SameBut (job.request.target? first.mounts) (first.steps before).stores
      (first.steps (before ++ during)).stores := by
  have hlocks := LocksSound.of_unused hu
  -- By induction on the stretch, whose first event goes over to what is before it.
  induction during generalizing before with
  | nil =>
    rw [List.append_nil]
    exact .refl _ _
  | cons event during ih =>
    have hsplit' : events = (before ++ [event]) ++ during ++ after := by simp [hsplit]
    have hrest := ih hsplit' fun e he => hown e (List.mem_cons_of_mem _ he)
    rw [List.append_assoc, List.singleton_append] at hrest
    refine .trans ?_ hrest
    by_cases hm : event.Moves id
    · rcases acknowledges_of_turn hu hj hcall (by simpa using hsplit) hm with
        hsame | ⟨rfl, s, key, visit, hack, -⟩
      · rw [hsame]
        exact .refl _ _
      · obtain ⟨call, store, -, hkey, hs, -, hstores⟩ := hack.stores
        rw [hstores, hack.target]
        exact .perform hs hkey
    · -- No other job has a turn either, so the event changes no store at all.
      have hnone : ∀ j, ¬event.Moves j := by
        intro j hmoves
        rw [hown event List.mem_cons_self j hmoves] at hmoves
        exact hm hmoves
      rw [steps_snoc, (hlocks.steps before).stores_same hnone]
      exact .refl _ _

end Whole

/-- A read that has its call acknowledged has removed a valid record that was to be read once. -/
theorem Acknowledges.burns {before : List Event} {key : String} {s : Nat} {stored : String}
    {visit : Visit} (hack : first.Acknowledges before id (.read key) s stored visit)
    (hrequest : job.request = .read key)
    (hanswer : ∀ answer, job.stage = .finished answer → answer = visit.acknowledged) :
    ∃ record now, first.Burns (before ++ [.run id]) id job s stored record now := by
  obtain ⟨course, hdue, hcourse⟩ := hack.course
  obtain ⟨call, store, hc, hkey, hs, hd, hstores⟩ := hack.stores
  cases hdue with
  | first hr =>
    cases Request.routed hr with
    | read => cases hack.next default false
  | @burn key' stored' entry hr hreq hf hm =>
    cases hc
    cases hkey
    -- Only the deletion of a record that is burnt is acknowledged to a read.
    have hremoved : ∀ store', (first.steps (before ++ [.run id])).stores[s]? = some store' →
        store'.cell? stored = none := by
      intro store' hs'
      rw [hstores, List.getElem?_set_self (List.getElem?_eq_some_iff.1 hs).1] at hs'
      cases hs'
      rcases store.perform_delete stored with ⟨-, hcells⟩ | ⟨fault, hfailed⟩
      · rw [hcells, if_pos rfl]
      · rw [hfailed] at hd
        cases hd
    have hfound : course.found? = some entry := by simp [Course.found?, hf]
    obtain ⟨now, hseen, hvalid⟩ : ∃ now, course.seen = some now ∧ entry.record.isValidAt now = true := by
      rw [Course.missCheck, hfound] at hm
      cases hseen : course.seen with
      | none => simp [hseen] at hm
      | some now =>
        refine ⟨now, rfl, ?_⟩
        simpa [hseen] using hm
    refine ⟨entry.record, now, ?_, hremoved, hack.once _ _ rfl, ?_, hvalid, hanswer⟩
    · rw [hrequest]
      exact hack.target
    · rw [hcourse]
      exact hseen

/-- A write, a read or a delete touches no entry but its own, whatever else is in the stores and whatever the
other jobs do: a read removes it at most, and only to answer with a valid record that is to be read once, and
a write that is dropped leaves it alone. -/
theorem touches_own_key {first : Cache} (hu : first.Unused) (events : List Event) {id : JobId} {job : Job}
    (hj : (first.steps events).jobs[id]? = some job) (hcall : job.request.IsCall) :
    first.TouchesOwnKey events id job where
  frame before during after hsplit hown := sameBut_during hu hj hcall hsplit hown
  reads key hrequest before event after hsplit hm := by
    rcases acknowledges_of_turn hu hj hcall hsplit hm with hsame | ⟨rfl, s, stored, visit, hack, hanswer⟩
    · exact .inl hsame
    · right
      rw [hrequest] at hack
      exact ⟨s, stored, hack.burns hrequest hanswer⟩
  dropped hdropped before event after hsplit hm := stores_of_dropped hu hj hcall hdropped hsplit hm

/-- Two mounts share a store of documents, and the path of one starts with that of the other. -/
theorem touches_own_key_shared :
    let record : Record := ⟨[7], { createdAt := default, burnAfterReading := true }⟩
    let documents := (Documents.put .empty ⟨"a/k", record⟩).put ⟨"ab/k", record⟩
    let first := fresh ⟨(KeyMap.empty.insert "a" 0).insert "ab" 0⟩ [.document [] "c" .empty documents] 0 0
      (.ofInstant default)
    let events : List Event := [.start (.read "/a/k/") .never, .run 0, .run 0, .run 0]
    let job : Job := { request := .read "/a/k/", stage := .finished (.record record) }
    first.Unused ∧ (first.steps events).jobs[0]? = some job ∧ first.TouchesOwnKey events 0 job ∧
      job.request.target? first.mounts = some (0, "a/k") ∧
      (first.steps events).stores = [.document [] "c" .empty (Documents.put .empty ⟨"ab/k", record⟩)] := by
  intro record documents first events job
  have hu : first.Unused := unused_fresh ..
  have hj : (first.steps events).jobs[0]? = some job := by decide +kernel
  exact ⟨hu, hj, touches_own_key hu events hj trivial, by decide +kernel, by decide +kernel⟩

end Cache

end RoutedCache

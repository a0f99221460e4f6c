import RoutedCache.Proofs.Cache.Cleaning
import RoutedCache.Proofs.Cache.Evictions
import RoutedCache.Proofs.Cache.Placement
import RoutedCache.Proofs.Cache.Sights

/-!
# Misses, faults and repairs

A read answers that there is no record only if there is none or an expired one, and with a fault only if the record
cannot be decoded or the store refuses to serve it.  Neither reads nor sweeps remove an entry that cannot be decoded,
and a write or a delete of its key leaves the store as if the entry had never been there (`Cache.misses_apart`).
-/

namespace RoutedCache

/-! ### Entries that cannot be decoded -/

/-- The stores have kept every entry that cannot be decoded. -/
def KeepsUndecodable (stores stores' : List Store) : Prop :=
  ∀ (s : Nat) (store : Store) (key : String) (cell : Cell), stores[s]? = some store → store.cell? key = some cell →
    cell.record? = none → ∃ store', stores'[s]? = some store' ∧ store'.cell? key = some cell

theorem KeepsUndecodable.of_eq {stores stores' : List Store} (h : stores' = stores) :
    KeepsUndecodable stores stores' := by
  intro s store key cell hs hcell _
  exact ⟨store, by rw [h, hs], hcell⟩

/-- The deletion of an entry that can be decoded keeps the others. -/
theorem KeepsUndecodable.delete {stores : List Store} {s : Nat} {store : Store} {key : String}
    (hs : stores[s]? = some store) (hk : ∀ cell, store.cell? key = some cell → cell.record? ≠ none) :
    KeepsUndecodable stores (stores.set s (store.perform (.delete key)).2) := by
  intro s' store' key' cell hs' hcell hnone
  by_cases hne : s' = s
  · subst hne
    cases hs.symm.trans hs'
    have hother : key' ≠ key := by
      rintro rfl
      exact hk cell hcell hnone
    refine ⟨_, List.getElem?_set_self (List.getElem?_eq_some_iff.1 hs).1, ?_⟩
    rw [(store.sameBut_perform rfl).cells key' hother, hcell]
  · exact ⟨store', by rw [List.getElem?_set_ne (Ne.symm hne), hs'], hcell⟩

/-! ### Calls that replace an entry -/

namespace Shelf

variable {shelf : Shelf} {key : String} {call : StoreCall}

/-- The shelf without the entry of a key in its store. -/
def without (shelf : Shelf) (key : String) : Shelf := { shelf with store := shelf.store.without key }

private theorem refusal?_without (shelf : Shelf) (key : String) (call : StoreCall) :
    (shelf.without key).refusal? call = shelf.refusal? call := by
  have hstore : (shelf.store.without key).refusal? call = shelf.store.refusal? call := by cases shelf.store <;> rfl
  exact congrArg shelf.outage?.or hstore

/-- What is kept under a key decides nothing about a put or a deletion there. -/
theorem perform_without (shelf : Shelf) (hk : call.key? = some key) (hg : ∀ key', call ≠ .get key') :
    ((shelf.without key).perform call).1 = (shelf.perform call).1 ∧
      ((shelf.perform call).1 = .done → (shelf.without key).perform call = shelf.perform call) := by
  constructor
  · rw [reply_change _ hk hg, reply_change _ hk hg, refusal?_without]
  · intro hdone
    obtain ⟨hserved, -⟩ := perform_done hdone
    have hsame := Store.perform_without hk hserved
    cases hout : shelf.outage? with
    | some fault =>
      unfold perform at hdone
      rw [hout] at hdone
      cases hdone
    | none =>
      have hout' : (shelf.without key).outage? = none := hout
      unfold perform
      rw [hout, hout']
      simp only [without, requested, hsame]

end Shelf

/-- The answer to a write or a delete whose call was acknowledged. -/
def Request.confirmation? : Request → Option Answer
  | .write .. => some .written
  | .delete _ => some .deleted
  | _ => none

/-- The call with which a write or a delete replaces what is kept under a key. -/
inductive Request.Replaces (request : Request) (key : String) : StoreCall → Prop
  | put {entry} (h : request.Makes entry) (hk : entry.key = key) : Replaces request key (.put entry)
  | delete (h : ∃ text, request = .delete text) : Replaces request key (.delete key)

section

variable {request : Request} {answer : Answer} (h : request.confirmation? = some answer)

include h

private theorem Request.isCall_of_confirmation? : request.IsCall := by
  cases request with
  | write => trivial
  | delete => trivial
  | _ => cases h

private theorem Request.not_read_of_confirmation? : ¬∃ text, request = .read text := by
  rintro ⟨text, rfl⟩
  cases h

/-- No store has to be asked for the answer of a request that is not routed. -/
private theorem Request.route_ne_confirmation? (mounts : MountTable Nat) (clock : Clock) :
    request.route mounts clock ≠ .error answer := by
  intro hroute
  cases request with
  | write =>
    cases h
    exact (isPlain_of_route hroute).1 rfl
  | delete text =>
    cases h
    simp only [route] at hroute
    split at hroute <;> cases hroute
  | _ => cases h

/-- The first call of a request that is no read replaces an entry. -/
private theorem FirstVisit.replaces {visit : Visit} {call : StoreCall} {key : String} (hfirst : FirstVisit request visit)
    (hc : visit.call? = some call) (hk : call.key? = some key) :
    request.Replaces key call ∧ ∀ key', call ≠ .get key' := by
  cases hfirst with
  | put hmakes =>
    cases hc
    exact ⟨.put hmakes (Option.some.inj hk), by simp⟩
  | get hread => exact (Request.not_read_of_confirmation? h hread).elim
  | delete hdelete =>
    cases hc
    cases hk
    exact ⟨.delete hdelete, by simp⟩

end

theorem Request.target?_of_place {mounts : MountTable Nat} {request : Request} {text key : String} {s : Nat}
    (hr : request.spelling? = some text) (h : mounts.place text = .ok (key, s)) :
    request.target? mounts = some (s, key) := by
  obtain ⟨hkey, path, hmount⟩ := MountTable.place_eq_ok h
  rw [target?_of_spelling? hr, ← normalizeKey_eq_ok hkey, MountTable.get?_of_resolve hmount]
  rfl

theorem MountTable.place_of_route {mounts : MountTable Nat} {clock : Clock} {text key : String} {s : Nat}
    (h : (Request.read text).route mounts clock = .ok (s, .get key)) : mounts.place text = .ok (key, s) := by
  simp only [Request.route] at h
  split at h
  next => cases h
  next hplace =>
    cases h
    exact hplace

namespace Cache

variable {c first : Cache} {id : JobId} {job : Job} {before : List Event} {event : Event}

/-- A turn of a read keeps what cannot be decoded. -/
theorem keeps_read (hu : first.Unused) (hj : (first.steps before).jobs[id]? = some job) {text : String}
    (hr : job.request = .read text) (hm : event.Moves id) :
    KeepsUndecodable (first.steps before).stores (first.steps (before ++ [event])).stores := by
  have hlocks := (LocksSound.of_unused hu).steps before
  have hcall : job.request.IsCall := by rw [hr]; trivial
  rcases acknowledges_turn hu hj hcall hm with hsame | ⟨rfl, s, key, visit, hack⟩
  · exact .of_eq hsame
  · obtain ⟨course, hdue, -⟩ := hack.course
    obtain ⟨call, store, hc, hk, hs, -, hstores⟩ := hack.stores
    cases hdue with
    | first hroute =>
      rw [hr] at hroute
      cases Request.routed hroute with
      | read => cases hack.next default false
    | @burn text' stored entry hroute hrequest =>
      cases hc
      cases hk
      have hplace := MountTable.place_of_route hroute
      rw [← (LocksSound.of_unused hu).mounts_steps before] at hplace
      have hfits := sees hu before id job text' key s hj hrequest hplace
      have hafter := hack.stage
      rw [steps_snoc, Cache.step] at hafter
      rcases hlocks.run_cases hj with ⟨hrun, hnot⟩ | ⟨new, shelves, cancelled, sweeper, ht, -, hrun⟩
      · rw [hrun, stage?_eq hj] at hafter
        exact absurd (Option.some.inj hafter) (hnot _ _ _)
      · rw [hrun, stage?_settle hj, if_pos rfl] at hafter
        cases hafter
        obtain ⟨-, -, cell, hcell, hrecord⟩ := hfits.burns hrequest hplace ht
        rw [hstores]
        refine .delete hs fun cell' hcell' => ?_
        have hkept : cellAt (first.steps before).shelves s key = store.cell? key := by
          rw [cellAt_eq_bind, show storesOn (first.steps before).shelves = (first.steps before).stores from rfl, hs,
            Option.bind_some]
        rw [hkept, hcell'] at hcell
        cases hcell
        simp [hrecord]

/-- A turn of a sweep keeps what cannot be decoded if what can be decoded names its own key. -/
theorem keeps_sweep (hu : first.Unused) (hn : ∀ store ∈ first.stores, store.NamesKeys)
    (hj : (first.steps before).jobs[id]? = some job) (hr : job.request.Sweeps) (hm : event.Moves id) :
    KeepsUndecodable (first.steps before).stores (first.steps (before ++ [event])).stores := by
  rcases deletes_turn hu hj hr hm with
    hsame | ⟨rfl, early, during, l, store, key, hsince, htakes, hw, ⟨entry, hentry, -, rfl⟩, hs, hstores⟩
  · exact .of_eq hsame
  · rw [hstores]
    refine .delete hs fun cell hcell => ?_
    have hnames := (LocksSound.of_unused hu).stores_all (fun _ call h => Store.NamesKeys.perform h call) hn early
    obtain ⟨listed, hlisted, hrecord⟩ :=
      ((hnames _ (List.mem_of_getElem? htakes.content)).list htakes.listing).2 entry hentry
    -- The entry is what the listing has shown, for the store has got none since.
    rcases hw.kept before store (prefix_of_since hsince) (List.prefix_append ..) hs entry.key with hkept | ⟨hnone, -⟩
    · rw [hkept, hlisted] at hcell
      cases hcell
      simp [hrecord]
    · rw [hnone] at hcell
      cases hcell

/-! ### Repairs -/

/-- In this turn a write or a delete has made its call: the store has replied as if there were no entry under the key, and
a call that is done leaves it as if there had been none. -/
structure Overrides (first : Cache) (before : List Event) (id : JobId) (request : Request) (s : Nat) (key : String)
    (call : StoreCall) (reply : Reply) : Prop where
  replaces : request.Replaces key call
  turn : ∃ stage shelf, (first.steps before).stage? id = some stage ∧
    (first.steps before).shelfFor? id s stage = some shelf ∧ ((shelf.without key).perform call).1 = reply ∧
    (first.steps (before ++ [.run id])).stores =
      if reply = .done then (first.steps before).stores.set s ((shelf.without key).perform call).2.store
      else (first.steps before).stores

/-- In this turn a job has come to its stage. -/
structure Enters (first : Cache) (before : List Event) (id : JobId) (old job : Job) (shelves : List Shelf) : Prop where
  earlier : (first.steps before).jobs[id]? = some old
  request : old.request = job.request
  transition : Transition (first.steps before) id old old.stage job.stage shelves
  stores : (first.steps (before ++ [.run id])).stores = storesOn shelves

/-- A job that is neither at its beginning nor between two mounts has come to its stage in one of its turns. -/
private theorem entered (hu : first.Unused) {events : List Event} (hj : (first.steps events).jobs[id]? = some job)
    (hready : job.stage ≠ .ready) (hbetween : ∀ cycle, job.stage ≠ .between cycle) :
    ∃ before old shelves, before ++ [.run id] <+: events ∧ first.Enters before id old job shelves := by
  -- From the end of the run backwards: the last event is this turn, or the job has been at its stage before.
  induction events using List.reverseRecOn generalizing job with
  | nil => simp [steps, hu.jobs] at hj
  | append_singleton before event ih =>
    have hlocks := (LocksSound.of_unused hu).steps before
    have hearlier (hj' : (first.steps before).jobs[id]? = some job) :
        ∃ before' old shelves, before' ++ [.run id] <+: before ++ [event] ∧ first.Enters before' id old job shelves := by
      obtain ⟨before', old, shelves, hprefix, henters⟩ := ih hj' hready hbetween
      exact ⟨before', old, shelves, hprefix.trans (List.prefix_append _ _), henters⟩
    rw [steps_snoc] at hj
    cases hold : (first.steps before).jobs[id]? with
    | none => exact absurd (hlocks.job_new hold hj).2 hready
    | some old =>
      by_cases hm : event.Moves id
      · rcases hlocks.moved hold hm with hsame | ⟨rfl, ht, hstores, hafter⟩ | ⟨-, hx, -, hafter⟩
        · rw [hsame] at hj
          exact hearlier hj
        · obtain rfl := Option.some.inj (hj.symm.trans hafter)
          rw [← steps_snoc] at hstores
          exact ⟨before, old, _, List.prefix_rfl, hold, rfl, ht, hstores⟩
        · obtain rfl := Option.some.inj (hj.symm.trans hafter)
          cases hx with
          | skip => exact absurd rfl (hbetween _)
      · have hsame := hlocks.job_same hold hm
        rw [hj] at hsame
        exact hearlier (hold.trans hsame.symm)

section

variable {answer : Answer} (hc : job.request.confirmation? = some answer)

include hc

private theorem failed_ne_confirmation? (error : CacheError) : Answer.failed error ≠ answer := by
  rintro rfl
  cases hr : job.request <;> rw [hr] at hc <;> cases hc

private theorem fail_ne_confirmation? {visit : Visit} (hfirst : FirstVisit job.request visit) (error : CacheError) :
    Stage.finished answer ≠ (visit.fail error).stage := by
  rw [hfirst.fail]
  exact fun heq => failed_ne_confirmation? hc error (Stage.finished.inj heq).symm

/-- A write or a delete that leaves its store with a confirmation has had an acknowledgement. -/
private theorem confirmed_of_leaves {c : Cache} {old : Stage} {turn : Visit.Turn} {mine : List (StoreCall × Reply)}
    (hl : Leaves c job old turn) (h : Trail job.request old mine) (hturn : Stage.finished answer = turn.stage) :
    ∃ s visit, old = .returned s visit .done := by
  have hread := Request.not_read_of_confirmation? hc
  cases hl with
  | cancelled =>
    cases h with
    | queued hfirst => exact absurd hturn (fail_ne_confirmation? hc hfirst _)
  | next hnext =>
    subst hnext
    cases h with
    | returned hfirst hcl hf =>
      cases hfirst with
      | get hr => exact absurd hr hread
      | _ =>
        cases hcl
        rcases hf with rfl | ⟨fault, rfl⟩
        · exact ⟨_, _, rfl⟩
        · exact absurd (Stage.finished.inj hturn).symm (failed_ne_confirmation? hc _)
    | burn hr => exact absurd hr hread
  | held => cases h

/-- A write or a delete is confirmed on an acknowledgement only. -/
private theorem confirmed_of_transition {c : Cache} {old : Stage} {shelves : List Shelf}
    {mine : List (StoreCall × Reply)} (ht : Transition c id job old (.finished answer) shelves)
    (h : Trail job.request old mine) : ∃ s visit, old = .returned s visit .done := by
  have hcall := Request.isCall_of_confirmation? hc
  have hread := Request.not_read_of_confirmation? hc
  have hvisits {s : Nat} {shelf shelf' : Shelf} {visit : Visit} (hfirst : FirstVisit job.request visit)
      (hv : Visits c id s shelf visit (.finished answer) shelf') : False := by
    cases hv
    cases hfirst
  generalize hnew : Stage.finished answer = new at ht
  cases ht with
  | aside ha =>
    cases ha with
    | answer hroute =>
      cases hnew
      exact absurd hroute (Request.route_ne_confirmation? hc _ _)
    | shutdown hr =>
      rw [hr] at hc
      cases hc
    | swept => cases h
    | stop => cases h
    | joined => cases h
    | _ => cases hnew
  | refuse hw => exact absurd hnew (fail_ne_confirmation? hc (h.firstVisit hcall hw).2 _)
  | cancel hw => exact absurd hnew (fail_ne_confirmation? hc (h.firstVisit hcall hw).2 _)
  | queue => cases hnew
  | enter hw _ _ _ _ hv =>
    subst hnew
    exact (hvisits (h.firstVisit hcall hw).2 hv).elim
  | grant _ _ _ hv =>
    subst hnew
    cases h with
    | queued hfirst => exact (hvisits hfirst hv).elim
  | call => cases hnew
  | stay _ hstay =>
    cases h with
    | returned hfirst hcl hf =>
      rcases hfirst.next hcl hf c.clock (c.isCancelled job.token) with ⟨_, heq, -⟩ | ⟨_, _, -, hr, -⟩
      · cases heq.symm.trans hstay
      · exact absurd hr hread
    | burn hr => exact absurd hr hread
  | leave _ _ hl => exact confirmed_of_leaves hc hl h hnew

variable (hu : first.Unused) {events : List Event} (hj : (first.steps events).jobs[id]? = some job) {s : Nat}
  {key : String} (htarget : job.request.target? first.mounts = some (s, key))

include hu hj htarget

/-- A write or a delete that has a reply has got it in a turn that overrides the entry. -/
private theorem overrides_of_returned {s' : Nat} {visit : Visit} {reply : Reply}
    (hs : job.stage = .returned s' visit reply) : ∃ before call, before ++ [.run id] <+: events ∧ s' = s ∧
      visit.call? = some call ∧ first.Overrides before id job.request s key call reply := by
  have hcall := Request.isCall_of_confirmation? hc
  obtain ⟨before, old, shelves, hprefix, henters⟩ := entered hu hj (by simp [hs]) (by simp [hs])
  have ht := henters.transition
  rw [hs] at ht
  obtain ⟨shelf, call, hfor, hcl, rfl, hshelves⟩ := ht.made
  have hmade : job.stage.made? = some (s', call, (shelf.perform call).1) := by simp [hs, Stage.made?, hcl]
  obtain ⟨key', htarget', hkey⟩ := target_of_made hu hj hcall hmade
  cases htarget.symm.trans htarget'
  obtain ⟨mine, htrail⟩ := trail_steps hu hj hcall
  rw [hs] at htrail
  obtain ⟨hreplaces, hget⟩ : job.request.Replaces key call ∧ ∀ key', call ≠ .get key' := by
    cases htrail with
    | returned hfirst => exact hfirst.replaces hc hcl hkey
    | burn hr => exact absurd hr (Request.not_read_of_confirmation? hc)
  obtain ⟨hreply, hdone⟩ := shelf.perform_without hkey hget
  refine ⟨before, call, hprefix, rfl, hcl, hreplaces, old.stage, shelf, stage?_eq henters.earlier, hfor, hreply, ?_⟩
  rw [henters.stores, hshelves]
  split
  next h =>
    rw [hdone h]
    exact storesOn_set_perform ..
  next h =>
    obtain ⟨shelf', hs', hstore⟩ := shelf_of_shelfFor? hfor
    exact storesOn_set hs' ((Shelf.store_perform h).trans hstore)

/-- A write or a delete that is confirmed has overridden the entry. -/
private theorem overrides_of_confirmed (hs : job.stage = .finished answer) :
    ∃ before call, before ++ [.run id] <+: events ∧ first.Overrides before id job.request s key call .done := by
  obtain ⟨early, old, shelves, hprefix, henters⟩ := entered hu hj (by simp [hs]) (by simp [hs])
  have ht := henters.transition
  have hold := henters.earlier
  have hrequest := henters.request
  rw [← hrequest] at hc htarget ⊢
  rw [hs] at ht
  obtain ⟨mine, htrail⟩ := trail_steps hu hold (Request.isCall_of_confirmation? hc)
  obtain ⟨s', visit, hreturned⟩ := confirmed_of_transition hc ht htrail
  obtain ⟨before, call, hprefix', -, -, hoverrides⟩ := overrides_of_returned hc hu hold htarget hreturned
  exact ⟨before, call, hprefix'.trans ((List.prefix_append ..).trans hprefix), hoverrides⟩

end

/-! ### All together -/

/-- What a run makes of entries that are missing, expired or not to be decoded. -/
structure MissesApart (first : Cache) (events : List Event) : Prop where
  /-- A read whose token is not cancelled tells a miss, a fault and a hit apart. -/
  reads : ∀ (id : JobId) (job : Job) (text key : String) (s : Nat), (first.steps events).jobs[id]? = some job →
    job.request = .read text → first.mounts.place text = .ok (key, s) → ∀ answer, job.stage = .finished answer →
      (first.sight events id).TellsApart key answer ∨
        answer = .failed .cancelled ∧ (first.steps events).isCancelled job.token = true
  /-- A read that finds the lock of its store free is answered after some turns of its own. -/
  ends : ∀ (id : JobId) (job : Job) (text key : String) (s : Nat) (shelf : Shelf),
    (first.steps events).jobs[id]? = some job → job.request = .read text → first.mounts.place text = .ok (key, s) →
      job.stage = .ready → (first.steps events).shelves[s]? = some shelf → shelf.lock.holder = none →
        (first.steps events).EndsAlone id
  /-- Neither reads nor sweeps remove what cannot be decoded, provided that what can be decoded names its own key. -/
  kept : ∀ (id : JobId) (job : Job) (event : Event), (first.steps events).jobs[id]? = some job → event.Moves id →
    (∃ text, job.request = .read text) ∨ job.request.Sweeps ∧ (∀ store ∈ first.stores, store.NamesKeys) →
      KeepsUndecodable (first.steps events).stores (first.steps (events ++ [event])).stores
  /-- What is kept under the key decides nothing about the call of a write or a delete. -/
  called : ∀ (id : JobId) (job : Job) (text key : String) (s s' : Nat) (visit : Visit) (reply : Reply),
    (first.steps events).jobs[id]? = some job → job.request.confirmation?.isSome → job.request.spelling? = some text →
      first.mounts.place text = .ok (key, s) → job.stage = .returned s' visit reply →
        ∃ before call, before ++ [.run id] <+: events ∧ s' = s ∧ visit.call? = some call ∧
          first.Overrides before id job.request s key call reply
  /-- One write or one delete that is confirmed leaves its store as if nothing had been kept under the key. -/
  repaired : ∀ (id : JobId) (job : Job) (text key : String) (s : Nat) (answer : Answer),
    (first.steps events).jobs[id]? = some job → job.request.confirmation? = some answer →
      job.request.spelling? = some text → first.mounts.place text = .ok (key, s) → job.stage = .finished answer →
        ∃ before call, before ++ [.run id] <+: events ∧ first.Overrides before id job.request s key call .done

/-- A read answers that there is no record exactly if nothing or an expired record is kept under the key, and with a
fault exactly if the store refuses it or keeps what cannot be decoded; and what cannot be decoded stays until it is
replaced by a write or a delete, whatever the stores keep. -/
theorem misses_apart {first : Cache} (hu : first.Unused) (events : List Event) : first.MissesApart events := by
  have hlocks := (LocksSound.of_unused hu).steps events
  have hmounts := (LocksSound.of_unused hu).mounts_steps events
  exact {
    reads := fun id job text key s hj hr hplace answer hs => by
      have hfits := sees hu events id job text key s hj hr (hmounts ▸ hplace)
      rw [hs] at hfits
      cases hfits with
      | finished h =>
        rw [h]
        exact .inl (Sight.tellsApart _ key)
      | cancelled h => exact .inr ⟨rfl, h⟩
    ends := fun id job text key s shelf hj hr hplace hready hs hfree =>
      (sees hu events id).ends_free hr (hmounts ▸ hplace) hlocks hj hready hs hfree
    kept := fun id job event hj hm hkind => by
      rcases hkind with ⟨text, hr⟩ | ⟨hr, hn⟩
      · exact keeps_read hu hj hr hm
      · exact keeps_sweep hu hn hj hr hm
    called := fun id job text key s s' visit reply hj hc hr hplace hs => by
      obtain ⟨answer, hanswer⟩ := Option.isSome_iff_exists.1 hc
      exact overrides_of_returned hanswer hu hj (Request.target?_of_place hr hplace) hs
    repaired := fun id job text key s answer hj hc hr hplace hs =>
      overrides_of_confirmed hc hu hj (Request.target?_of_place hr hplace) hs }

/-- A document that is not even text is reported, outlives a sweep that removes an expired record, and is replaced by a
write. -/
theorem misses_apart_document :
    let record : Record := ⟨[7], { createdAt := default, notValidAfter := some default }⟩
    let documents := (Documents.put .empty ⟨"a/old", record⟩).insert "a/k" [255]
    let first := fresh ⟨KeyMap.empty.insert "a" 0⟩ [.document [] "c" .empty documents] 0 0 (.ofInstant default)
    let before : List Event := [.start (.read "/a/k") .never, .run 0, .run 0, .start (.read "a/old") .never, .run 1,
      .run 1, .start (.read "a/gone") .never, .run 2, .run 2, .start .sweep .never, .run 3, .run 3, .run 3, .run 3]
    let events := before ++ [.start (.write "a/k" [1] []) .never, .run 4, .run 4]
    first.Unused ∧ first.MissesApart events ∧
      (first.steps events).answer? 0 = some (.failed (.backend .undecodable)) ∧
      (first.steps events).answer? 1 = some (.failed (.notFound "a/old")) ∧
      (first.steps events).answer? 2 = some (.failed (.notFound "a/gone")) ∧
      (first.sight events 0).cell = some (.text [255]) ∧
      (first.steps before).stores = [.document [] "c" .empty (KeyMap.empty.insert "a/k" [255])] ∧
      (first.steps events).stores =
        [.document [] "c" .empty (Documents.put .empty ⟨"a/k", ⟨[1], { createdAt := default }⟩⟩)] := by
  intro record documents first before events
  have hu : first.Unused := unused_fresh ..
  exact ⟨hu, misses_apart hu events, by decide +kernel, by decide +kernel, by decide +kernel, by decide +kernel,
    by decide +kernel, by decide +kernel⟩

end Cache

end RoutedCache

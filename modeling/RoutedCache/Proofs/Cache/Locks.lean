import RoutedCache.Proofs.Cache.Transition

/-!
# Locks and their holders

The jobs that hold or await the lock of a store are those whose stage says so, each of them once, and a job at work
in a store holds its lock (`Cache.LocksSound`).  As long as this is so, an event starts a job, is a transition of
one or leaves all jobs alone (`LocksSound.effect`), and so it stays so (`LocksSound.steps`).  Two jobs are never at
work in one store at a time (`LocksSound.exclusive`).
-/

namespace RoutedCache

namespace Lock

/-- The job that holds the lock, if one does, and then the jobs that wait. -/
def members (lock : Lock) : List JobId :=
  match lock.holder with
  | some (.job id) => id :: lock.waiting
  | _ => lock.waiting

theorem mem_members_iff {lock : Lock} {id : JobId} :
    id ∈ lock.members ↔ lock.holder = some (.job id) ∨ id ∈ lock.waiting := by
  unfold members
  split
  next holder hholder => simp [hholder, eq_comm]
  next hnot => exact (or_iff_right (hnot id)).symm

/-- No job is twice in the lock, and no job waits for a free one. -/
structure Sound (lock : Lock) : Prop where
  nodup : lock.members.Nodup
  free : lock.holder = none → lock.waiting = []

variable {lock : Lock} {id : JobId}

theorem sound_free : Sound {} := ⟨List.nodup_nil, fun _ => rfl⟩

theorem members_ask (h : lock.Sound) (id : JobId) : (lock.ask id).members = lock.members ++ [id] := by
  obtain ⟨holder, waiting⟩ := lock
  cases holder with
  | none =>
    obtain rfl : waiting = [] := h.free rfl
    rfl
  | some holder => cases holder <;> rfl

theorem filter_ne_self {jobs : List JobId} (h : id ∉ jobs) : jobs.filter (· ≠ id) = jobs := by
  rw [List.filter_eq_self]
  intro j hj
  simpa using fun heq : j = id => h (heq ▸ hj)

theorem members_handOver (lock : Lock) : lock.handOver.members = lock.waiting := by
  obtain ⟨holder, _ | ⟨next, waiting⟩⟩ := lock <;> rfl

/-- Nobody but its holder is in front of those who wait for a lock. -/
private theorem filter_members (h : lock.Sound) (id : JobId) : lock.members.filter (· ≠ id) =
    if lock.holder = some (.job id) then lock.waiting
    else { lock with waiting := lock.waiting.filter (· ≠ id) }.members := by
  obtain ⟨holder, waiting⟩ := lock
  have hnodup := h.nodup
  split
  next heq =>
    obtain rfl : holder = some (.job id) := heq
    have hid : id ∉ waiting := (List.nodup_cons.1 hnodup).1
    exact (List.filter_cons_of_neg (by simp)).trans (filter_ne_self hid)
  next hne =>
    cases holder with
    | none => rfl
    | some holder =>
      cases holder with
      | work => rfl
      | job holder =>
        have hother : holder ≠ id := fun heq => hne (heq ▸ rfl)
        exact List.filter_cons_of_pos (by simpa using hother)

theorem members_leave (h : lock.Sound) (id : JobId) :
    (lock.leave id).members = lock.members.filter (· ≠ id) := by
  rw [filter_members h, leave]
  split
  next => exact members_handOver lock
  next => rfl

theorem members_abandon (h : lock.Sound) (id : JobId) :
    (lock.abandon id).members = lock.members.filter (· ≠ id) := by
  unfold abandon
  split
  next hholder =>
    rw [filter_members h, if_pos hholder]
    rfl
  next => exact members_leave h id

theorem members_release (lock : Lock) : lock.release.members = lock.members := by
  unfold release
  split
  next hholder =>
    rw [members_handOver]
    obtain ⟨holder, waiting⟩ := lock
    obtain rfl : holder = some .work := hholder
    rfl
  next => rfl

theorem Sound.ask (h : lock.Sound) (hid : id ∉ lock.members) : (lock.ask id).Sound := by
  constructor
  · rw [members_ask h, List.nodup_append]
    refine ⟨h.nodup, List.pairwise_singleton _ _, ?_⟩
    rintro j hj _ hmem rfl
    exact hid (List.mem_singleton.1 hmem ▸ hj)
  · intro hfree
    unfold Lock.ask at hfree
    split at hfree
    next => cases hfree
    next holder heq => rw [heq] at hfree; cases hfree

/-- The first who waits gets the lock. -/
theorem holder_handOver (lock : Lock) : lock.handOver.holder = lock.waiting.head?.map .job := by
  obtain ⟨holder, _ | ⟨next, waiting⟩⟩ := lock <;> rfl

theorem waiting_handOver (lock : Lock) : lock.handOver.waiting = lock.waiting.tail := by
  obtain ⟨holder, _ | ⟨next, waiting⟩⟩ := lock <;> rfl

private theorem handOver_free (h : lock.handOver.holder = none) : lock.handOver.waiting = [] := by
  obtain ⟨holder, _ | ⟨next, waiting⟩⟩ := lock
  · rfl
  · cases h

theorem Sound.leave (h : lock.Sound) (id : JobId) : (lock.leave id).Sound := by
  constructor
  · rw [members_leave h]
    exact h.nodup.filter _
  · intro hfree
    unfold Lock.leave at hfree ⊢
    split at hfree
    next heq =>
      rw [if_pos heq]
      exact handOver_free hfree
    next hne =>
      rw [if_neg hne]
      simp [h.free hfree]

theorem Sound.abandon (h : lock.Sound) (id : JobId) : (lock.abandon id).Sound := by
  constructor
  · rw [members_abandon h]
    exact h.nodup.filter _
  · intro hfree
    unfold Lock.abandon at hfree ⊢
    split at hfree
    next => cases hfree
    next hne =>
      rw [if_neg hne]
      exact (h.leave id).free hfree

theorem Sound.release (h : lock.Sound) : lock.release.Sound := by
  constructor
  · rw [members_release]
    exact h.nodup
  · intro hfree
    unfold Lock.release at hfree ⊢
    split at hfree
    next heq =>
      rw [if_pos heq]
      exact handOver_free hfree
    next hne =>
      rw [if_neg hne]
      exact h.free hfree

theorem holder_mem (h : lock.holder = some (.job id)) : id ∈ lock.members := by
  simp [members, h]

theorem holder_ask {holder : Holder} (h : lock.holder = some holder) (id : JobId) :
    (lock.ask id).holder = some holder := by
  simp [ask, h]

theorem holder_ask_of_free (h : lock.holder = none) (id : JobId) : (lock.ask id).holder = some (.job id) := by
  simp [ask, h]

theorem holder_leave {holder : Holder} (h : lock.holder = some holder) (hne : holder ≠ .job id) :
    (lock.leave id).holder = some holder := by
  unfold leave
  rw [if_neg (by simpa [h] using hne)]
  exact h

theorem holder_abandon {holder : Holder} (h : lock.holder = some holder) (hne : holder ≠ .job id) :
    (lock.abandon id).holder = some holder := by
  unfold abandon
  rw [if_neg (by simpa [h] using hne)]
  exact holder_leave h hne

theorem holder_release {j : JobId} (h : lock.holder = some (.job j)) : lock.release.holder = some (.job j) := by
  unfold release
  rw [if_neg (by simp [h])]
  exact h

theorem handOver_ne_work (lock : Lock) : lock.handOver.holder ≠ some .work := by
  rw [holder_handOver]
  cases lock.waiting.head? <;> simp

theorem ask_eq_work_iff : (lock.ask id).holder = some .work ↔ lock.holder = some .work := by
  unfold ask
  split <;> simp_all

theorem leave_eq_work_iff : (lock.leave id).holder = some .work ↔ lock.holder = some .work := by
  unfold leave
  split
  next h => simp [h, handOver_ne_work]
  next => rfl

end Lock

@[simp] theorem Shelf.lock_perform (shelf : Shelf) (call : StoreCall) :
    (shelf.perform call).2.lock = shelf.lock := by
  unfold Shelf.perform
  split <;> rfl

@[simp] theorem Visit.Turn.claim?_stage (turn : Visit.Turn) : turn.stage.claim? = none := by
  cases turn <;> rfl

/-- A turn that ends a visit leads to no stage with a claim to a store. -/
theorem Stage.ne_turn {stage : Stage} {store : Nat} (h : stage.claim? = some store) (turn : Visit.Turn) :
    stage ≠ turn.stage := by
  rintro rfl
  rw [Visit.Turn.claim?_stage] at h
  cases h

theorem Stage.claim?_of_inside? {stage : Stage} {store : Nat} (h : stage.inside? = some store) :
    stage.claim? = some store := by
  cases stage with
  | queued => cases h
  | _ => exact h

namespace Cache

/-- A cache over stores, before its first job. -/
def fresh (mounts : MountTable Nat) (stores : List Store) (interval timeout : Nat) (clock : Clock) : Cache :=
  { mounts, shelves := stores.map fun store => { store }, interval, timeout, clock }

/-- No job has been started, and all locks are free. -/
structure Unused (c : Cache) : Prop where
  jobs : c.jobs = []
  free : ∀ (s : Nat) (shelf : Shelf), c.shelves[s]? = some shelf → shelf.lock = {}

/-- The store whose lock a job holds or awaits. -/
def claim? (c : Cache) (id : JobId) : Option Nat := (c.stage? id).bind Stage.claim?

/-- The store in which a job is at work. -/
def inside? (c : Cache) (id : JobId) : Option Nat := (c.stage? id).bind Stage.inside?

structure LocksSound (c : Cache) : Prop where
  sound : ∀ (s : Nat) (shelf : Shelf), c.shelves[s]? = some shelf → shelf.lock.Sound
  members : ∀ (s : Nat) (shelf : Shelf), c.shelves[s]? = some shelf →
    ∀ id, id ∈ shelf.lock.members ↔ c.claim? id = some s
  placed : ∀ id s, c.claim? id = some s → s < c.shelves.length
  inside : ∀ id s, c.inside? id = some s →
    ∃ shelf, c.shelves[s]? = some shelf ∧ shelf.lock.holder = some (.job id)

variable {c : Cache} {id : JobId} {job : Job}

theorem stage?_eq (hj : c.jobs[id]? = some job) : c.stage? id = some job.stage := by simp [stage?, hj]

theorem claim?_eq (hj : c.jobs[id]? = some job) : c.claim? id = job.stage.claim? := by
  simp [claim?, stage?_eq hj]

theorem inside?_eq (hj : c.jobs[id]? = some job) : c.inside? id = job.stage.inside? := by
  simp [inside?, stage?_eq hj]

theorem getElem?_settle (hj : c.jobs[id]? = some job) (shelves : List Shelf) (cancelled : List Token)
    (sweeper : Option JobId) (old new : Stage) (j : JobId) :
    ({ c with shelves, cancelled, sweeper }.settle id old new).jobs[j]? =
      if j = id then some { job with stage := new } else c.jobs[j]? := by
  simp only [settle, setStage, List.getElem?_modify]
  by_cases h : j = id
  · subst h
    simp [hj]
  · simp [h, Ne.symm h]

theorem stage?_settle (hj : c.jobs[id]? = some job) (shelves : List Shelf) (cancelled : List Token)
    (sweeper : Option JobId) (old new : Stage) (j : JobId) :
    ({ c with shelves, cancelled, sweeper }.settle id old new).stage? j =
      if j = id then some new else c.stage? j := by
  unfold stage?
  rw [getElem?_settle hj]
  split <;> rfl

/-- The end of work that was left behind changes the lock of its shelf, if there is this shelf. -/
theorem complete_cases (c : Cache) (store : Nat) : c.step (.complete store) = c ∨
    ∃ shelf, c.shelves[store]? = some shelf ∧
      c.step (.complete store) = { c with shelves := c.shelves.set store shelf.released } := by
  cases hs : c.shelves[store]? with
  | none =>
    left
    simp only [step, setLock]
    rw [List.modify_eq_self (List.getElem?_eq_none_iff.1 hs)]
  | some shelf => exact .inr ⟨shelf, rfl, setLock_eq hs _⟩

namespace LocksSound

/-- Of the cache only the jobs and the shelves matter. -/
theorem of_eq (h : c.LocksSound) {d : Cache} (hjobs : d.jobs = c.jobs) (hshelves : d.shelves = c.shelves) :
    d.LocksSound := by
  cases c
  cases d
  cases hjobs
  cases hshelves
  exact ⟨h.sound, h.members, h.placed, h.inside⟩

/-- The job at work in a store holds its lock. -/
theorem holder_of_inside (h : c.LocksSound) {i : JobId} {s : Nat} (hi : c.inside? i = some s) {shelf : Shelf}
    (hs : c.shelves[s]? = some shelf) : shelf.lock.holder = some (.job i) := by
  obtain ⟨shelf', hs', hholder⟩ := h.inside i s hi
  rw [hs] at hs'
  cases hs'
  exact hholder

/-- Two jobs at work in one store are the same job. -/
theorem exclusive (h : c.LocksSound) {i j : JobId} {s : Nat} (hi : c.inside? i = some s)
    (hj : c.inside? j = some s) :
    i = j := by
  obtain ⟨shelf, hs, hholder⟩ := h.inside i s hi
  rw [h.holder_of_inside hj hs] at hholder
  exact (Holder.job.inj (Option.some.inj hholder)).symm

/-- No lock has a holder whose stage does not claim the store. -/
theorem claims (h : c.LocksSound) (hj : c.jobs[id]? = some job) :
    ∀ (s : Nat) (shelf : Shelf), c.shelves[s]? = some shelf → shelf.lock.holder = some (.job id) →
      job.stage.claim? = some s := by
  intro s shelf hs hholder
  rw [← claim?_eq hj]
  exact (h.members s shelf hs id).1 (Lock.holder_mem hholder)

theorem run_cases (h : c.LocksSound) (hj : c.jobs[id]? = some job) : RunsTo c id job (c.run id) :=
  Cache.run_cases hj (h.claims hj) fun s hs => h.placed id s (by rw [claim?_eq hj, hs])

theorem expire_cases (h : c.LocksSound) (id : JobId) :
    c.expire id = c ∨ ∃ job next shelves, c.jobs[id]? = some job ∧ Expiry c id job.stage next shelves ∧
      c.expire id = { c with shelves }.settle id job.stage next := by
  cases hj : c.jobs[id]? with
  | none => exact .inl (by simp [expire, stage?, hj])
  | some job =>
    rcases Cache.expire_cases hj fun s hs => h.placed id s (by rw [claim?_eq hj, hs]) with
      heq | ⟨next, shelves, he, heq⟩
    · exact .inl heq
    · exact .inr ⟨job, next, shelves, rfl, he, heq⟩

theorem effect (h : c.LocksSound) (event : Event) : Effect c event (c.step event) := by
  have hsame {event : Event} : Effect c event c := .aside (List.Subset.refl c.cancelled)
  cases event with
  | start request token => exact .start rfl
  | run id =>
    cases hj : c.jobs[id]? with
    | none =>
      simp only [Cache.step, run, hj]
      exact hsame
    | some job =>
      rcases h.run_cases hj with ⟨hrun, -⟩ | ⟨next, shelves, cancelled, sweeper, ht, hcancelled, hrun⟩
      · rw [Cache.step, hrun]
        exact hsame
      · have hmore : c.cancelled ⊆ cancelled := by
          rcases hcancelled with rfl | ⟨-, hmore⟩
          · exact List.Subset.refl _
          · exact hmore
        rw [Cache.step, hrun]
        exact .turn rfl hj ht hmore
  | expire id =>
    rcases h.expire_cases id with hexpire | ⟨job, next, shelves, hj, he, hexpire⟩
    · rw [Cache.step, hexpire]
      exact hsame
    · rw [Cache.step, hexpire]
      exact .skip rfl hj he
  | complete store =>
    rcases complete_cases c store with hcomplete | ⟨shelf, hs, hcomplete⟩
    · rw [hcomplete]
      exact hsame
    · rw [hcomplete]
      exact .complete rfl hs
  | cancel token =>
    simp only [Cache.step, cancel]
    split
    · exact hsame
    · exact .aside (List.subset_cons_self _ _)
  | elapse ms => exact .aside (List.Subset.refl _)
  | setClock t => exact .aside (List.Subset.refl _)

end LocksSound

/-- What a transition of a job does to the lock of a shelf, given the claims of the job before and after it. -/
structure LockChange (id : JobId) (store : Nat) (old new : Stage) (lock lock' : Lock) : Prop where
  sound : lock'.Sound
  others : ∀ j, j ≠ id → (j ∈ lock'.members ↔ j ∈ lock.members)
  own : id ∈ lock'.members ↔ new.claim? = some store
  before : old.claim? = none ∨ old.claim? = some store
  after : new.claim? = none ∨ new.claim? = some store
  inside : ∀ s, new.inside? = some s → s = store ∧ lock'.holder = some (.job id)
  keeps : ∀ holder, holder ≠ .job id → lock.holder = some holder → lock'.holder = some holder
  /-- The other jobs stay in their order. -/
  order : lock'.members = lock.members ∨ lock'.members = lock.members ++ [id] ∨
    lock'.members = lock.members.filter (· ≠ id)

namespace LockChange

variable {store : Nat} {old new : Stage} {lock lock' : Lock}

/-- The job goes on with a lock that it has. -/
theorem same (h : lock.Sound) (ho : old.claim? = some store) (hn : new.claim? = some store)
    (hid : lock.holder = some (.job id)) : LockChange id store old new lock lock where
  sound := h
  others _ _ := Iff.rfl
  own := ⟨fun _ => hn, fun _ => Lock.holder_mem hid⟩
  before := .inr ho
  after := .inr hn
  inside s hs := by
    have := Stage.claim?_of_inside? hs
    rw [hn] at this
    exact ⟨(Option.some.inj this).symm, hid⟩
  keeps _ _ h := h
  order := .inl rfl

/-- The job makes a request that is turned down. -/
theorem none (h : lock.Sound) (ho : old.claim? = .none) (hn : new.claim? = .none) (hid : id ∉ lock.members) :
    LockChange id store old new lock lock where
  sound := h
  others _ _ := Iff.rfl
  own := ⟨fun h => absurd h hid, fun h => by rw [hn] at h; cases h⟩
  before := .inl ho
  after := .inl hn
  inside s hs := by
    rw [Stage.claim?_of_inside? hs] at hn
    cases hn
  keeps _ _ h := h
  order := .inl rfl

/-- The job joins the lock. -/
theorem ask (h : lock.Sound) (ho : old.claim? = .none) (hn : new.claim? = some store) (hid : id ∉ lock.members)
    (hin : new.inside? = .none ∨ lock.holder = .none) : LockChange id store old new lock (lock.ask id) where
  sound := h.ask hid
  others j hj := by simp [Lock.members_ask h, hj]
  own := by simp [Lock.members_ask h, hn]
  before := .inl ho
  after := .inr hn
  inside s hs := by
    have := Stage.claim?_of_inside? hs
    rw [hn] at this
    refine ⟨(Option.some.inj this).symm, ?_⟩
    rcases hin with hin | hin
    · rw [hin] at hs; cases hs
    · exact Lock.holder_ask_of_free hin id
  keeps _ _ hholder := Lock.holder_ask hholder id
  order := .inr (.inl (Lock.members_ask h id))

/-- The job goes out of the lock, in which it may have been before. -/
private theorem out (ho : old.claim? = .none ∨ old.claim? = some store) (hn : new.claim? = .none)
    (hsound : lock'.Sound) (hmembers : lock'.members = lock.members.filter (· ≠ id))
    (hkeeps : ∀ holder, holder ≠ .job id → lock.holder = some holder → lock'.holder = some holder) :
    LockChange id store old new lock lock' where
  sound := hsound
  others j hj := by simp [hmembers, hj]
  own := by simp [hmembers, hn]
  before := ho
  after := .inl hn
  inside s hs := by
    rw [Stage.claim?_of_inside? hs] at hn
    cases hn
  keeps := hkeeps
  order := .inr (.inr hmembers)

theorem leave (h : lock.Sound) (ho : old.claim? = .none ∨ old.claim? = some store) (hn : new.claim? = .none) :
    LockChange id store old new lock (lock.leave id) :=
  out ho hn (h.leave id) (Lock.members_leave h id) fun _ hne hholder => Lock.holder_leave hholder hne

/-- The job goes out of the lock, and its work stays with it or not. -/
theorem giveUp (h : lock.Sound) (ho : old.claim? = .none ∨ old.claim? = some store) (hn : new.claim? = .none)
    (working : Bool) :
    LockChange id store old new lock (if working then lock.abandon id else lock.leave id) := by
  cases working with
  | false => exact leave h ho hn
  | true =>
    exact out ho hn (h.abandon id) (Lock.members_abandon h id) fun _ hne hholder =>
      Lock.holder_abandon hholder hne

/-- The job joins a free lock and leaves it at once. -/
theorem pass (h : lock.Sound) (ho : old.claim? = .none) (hn : new.claim? = .none) (hid : id ∉ lock.members) :
    LockChange id store old new lock ((lock.ask id).leave id) := by
  have hleave : LockChange id store old new (lock.ask id) ((lock.ask id).leave id) :=
    leave (h.ask hid) (.inl ho) hn
  refine { hleave with others := fun j hj => ?_, keeps := fun holder hne hholder => ?_, order := .inl ?_ }
  · rw [hleave.others j hj, Lock.members_ask h]
    simp [hj]
  · exact hleave.keeps holder hne (Lock.holder_ask hholder id)
  · rw [Lock.members_leave (h.ask hid), Lock.members_ask h, List.filter_append, Lock.filter_ne_self hid]
    simp

end LockChange

/-- At work in a store, a job goes on with the lock or leaves it. -/
theorem lock_visits {store : Nat} {shelf shelf' : Shelf} {visit : Visit} {next : Stage}
    (h : Visits c id store shelf visit next shelf') :
    next.inside? = some store ∧ shelf'.lock = shelf.lock ∨ next.claim? = none ∧
      shelf'.lock = shelf.lock.leave id := by
  cases h with
  | hold => exact .inl ⟨rfl, rfl⟩
  | pause h hd => exact .inl ⟨rfl, rfl⟩
  | call h hd => exact .inl ⟨rfl, Shelf.lock_perform ..⟩
  | done => exact .inr ⟨rfl, rfl⟩

theorem claim?_aside {old new : Stage} (h : Aside c job old new) : old.claim? = none ∧ new.claim? = none := by
  cases h <;> exact ⟨rfl, rfl⟩

theorem claim?_wants {old : Stage} {store : Nat} {visit : Visit} (h : Wants c job old store visit) :
    old.claim? = none := by
  cases h <;> rfl

namespace LocksSound

private theorem not_mem (h : c.LocksSound) (hj : c.jobs[id]? = some job) (hclaim : job.stage.claim? = none)
    {store : Nat} {shelf : Shelf} (hs : c.shelves[store]? = some shelf) : id ∉ shelf.lock.members := by
  rw [h.members store shelf hs, claim?_eq hj, hclaim]
  exact nofun

/-- A transition leaves all shelves alone or changes the lock of one. -/
theorem lockChange (h : c.LocksSound) (hj : c.jobs[id]? = some job) {new : Stage} {shelves : List Shelf}
    (ht : Transition c id job job.stage new shelves) :
    shelves = c.shelves ∧ job.stage.claim? = none ∧ new.claim? = none ∨
      ∃ store shelf shelf', c.shelves[store]? = some shelf ∧ shelves = c.shelves.set store shelf' ∧
        LockChange id store job.stage new shelf.lock shelf'.lock := by
  have hout := h.not_mem hj
  have hin {store : Nat} {shelf : Shelf} (hs : c.shelves[store]? = some shelf)
      (hi : job.stage.inside? = some store) :
      shelf.lock.holder = some (.job id) := h.holder_of_inside (by rw [inside?_eq hj, hi]) hs
  generalize hold : job.stage = old at ht hout hin
  cases ht with
  | aside ha => exact .inl ⟨rfl, claim?_aside ha⟩
  | @refuse _ store visit shelf fault hw hs _ =>
    have ho := claim?_wants hw
    exact .inr ⟨store, shelf, _, hs, rfl, .none (h.sound _ _ hs) ho (Visit.Turn.claim?_stage _) (hout ho hs)⟩
  | @cancel _ store visit shelf hw hs _ _ =>
    have ho := claim?_wants hw
    exact .inr ⟨store, shelf, _, hs, rfl, .none (h.sound _ _ hs) ho (Visit.Turn.claim?_stage _) (hout ho hs)⟩
  | @queue _ store visit shelf holder hw hs _ _ _ _ =>
    have ho := claim?_wants hw
    exact .inr ⟨store, shelf, _, hs, rfl, .ask (h.sound _ _ hs) ho rfl (hout ho hs) (.inl rfl)⟩
  | @enter _ store visit shelf _ shelf' hw hs _ _ hfree hv =>
    have ho := claim?_wants hw
    refine .inr ⟨store, shelf, shelf', hs, rfl, ?_⟩
    rcases lock_visits hv with ⟨hn, hlock⟩ | ⟨hn, hlock⟩
    · rw [hlock]
      exact .ask (h.sound _ _ hs) ho (Stage.claim?_of_inside? hn) (hout ho hs) (.inr hfree)
    · rw [hlock]
      exact .pass (h.sound _ _ hs) ho hn (hout ho hs)
  | @grant store visit shelf _ shelf' hs _ hholder hv =>
    refine .inr ⟨store, shelf, shelf', hs, rfl, ?_⟩
    rcases lock_visits hv with ⟨hn, hlock⟩ | ⟨hn, hlock⟩
    · rw [hlock]
      exact .same (h.sound _ _ hs) rfl (Stage.claim?_of_inside? hn) hholder
    · rw [hlock]
      exact .leave (h.sound _ _ hs) (.inr rfl) hn
  | @call store visit due call shelf hs _ _ =>
    refine .inr ⟨store, shelf, _, hs, rfl, ?_⟩
    rw [Shelf.lock_perform]
    exact .same (h.sound _ _ hs) rfl rfl (hin hs rfl)
  | @stay store visit reply visit' shelf _ shelf' hs _ hv =>
    refine .inr ⟨store, shelf, shelf', hs, rfl, ?_⟩
    rcases lock_visits hv with ⟨hn, hlock⟩ | ⟨hn, hlock⟩
    · rw [hlock]
      exact .same (h.sound _ _ hs) rfl (Stage.claim?_of_inside? hn) (hin hs rfl)
    · rw [hlock]
      exact .leave (h.sound _ _ hs) (.inr rfl) hn
  | @leave _ store shelf turn hk hs _ =>
    exact .inr ⟨store, shelf, _, hs, rfl, .leave (h.sound _ _ hs) (.inr hk) (Visit.Turn.claim?_stage turn)⟩

variable {cancelled : List Token} {sweeper : Option JobId} {new : Stage}

private theorem settle_same (h : c.LocksSound) (hj : c.jobs[id]? = some job) (ho : job.stage.claim? = none)
    (hn : new.claim? = none) : ({ c with cancelled, sweeper }.settle id job.stage new).LocksSound := by
  have hstage := stage?_settle hj c.shelves cancelled sweeper job.stage new
  have hclaim (j : JobId) : ({ c with cancelled, sweeper }.settle id job.stage new).claim? j = c.claim? j := by
    unfold claim?
    rw [hstage j]
    split
    next heq => rw [heq, stage?_eq hj, Option.bind_some, Option.bind_some, ho, hn]
    next => rfl
  have hinside (j : JobId) : ({ c with cancelled, sweeper }.settle id job.stage new).inside? j =
      c.inside? j := by
    have hnone {stage : Stage} (hs : stage.claim? = none) : stage.inside? = none := by
      rw [Option.eq_none_iff_forall_ne_some]
      intro s hi
      rw [Stage.claim?_of_inside? hi] at hs
      cases hs
    unfold inside?
    rw [hstage j]
    split
    next heq => rw [heq, stage?_eq hj, Option.bind_some, Option.bind_some, hnone ho, hnone hn]
    next => rfl
  constructor
  · exact h.sound
  · intro s shelf hs j
    rw [hclaim]
    exact h.members s shelf hs j
  · intro j s hs
    rw [hclaim] at hs
    exact h.placed j s hs
  · intro j s hs
    rw [hinside] at hs
    exact h.inside j s hs

private theorem settle_set (h : c.LocksSound) (hj : c.jobs[id]? = some job) {store : Nat} {shelf shelf' : Shelf}
    (hs : c.shelves[store]? = some shelf) (hl : LockChange id store job.stage new shelf.lock shelf'.lock) :
    ({ c with shelves := c.shelves.set store shelf', cancelled, sweeper }.settle id job.stage
      new).LocksSound := by
  have hlt := (List.getElem?_eq_some_iff.1 hs).1
  have hstage := stage?_settle hj (c.shelves.set store shelf') cancelled sweeper job.stage new
  have hclaim (j : JobId) : ({ c with shelves := c.shelves.set store shelf', cancelled, sweeper }.settle id
      job.stage new).claim? j = if j = id then new.claim? else c.claim? j := by
    unfold claim?
    rw [hstage j]
    split <;> rfl
  have hinside (j : JobId) : ({ c with shelves := c.shelves.set store shelf', cancelled, sweeper }.settle id
      job.stage new).inside? j = if j = id then new.inside? else c.inside? j := by
    unfold inside?
    rw [hstage j]
    split <;> rfl
  constructor
  · intro s other hother
    rcases Shelf.set_cases hother with ⟨-, rfl⟩ | ⟨-, hother⟩
    · exact hl.sound
    · exact h.sound s other hother
  · intro s other hother j
    rw [hclaim]
    rcases Shelf.set_cases hother with ⟨rfl, rfl⟩ | ⟨hne, hother⟩
    · by_cases hjid : j = id
      · subst hjid
        rw [if_pos rfl]
        exact hl.own
      · rw [if_neg hjid, hl.others j hjid]
        exact h.members s shelf hs j
    · rw [h.members s other hother j]
      by_cases hjid : j = id
      · subst hjid
        rw [if_pos rfl, claim?_eq hj]
        -- The job has no claim to any other store, neither before nor after.
        have hbefore : job.stage.claim? ≠ some s := by
          rcases hl.before with hb | hb <;> rw [hb] <;> simp [Ne.symm hne]
        have hafter : new.claim? ≠ some s := by
          rcases hl.after with hb | hb <;> rw [hb] <;> simp [Ne.symm hne]
        exact ⟨fun h => absurd h hbefore, fun h => absurd h hafter⟩
      · rw [if_neg hjid]
  · intro j s hjs
    rw [hclaim] at hjs
    show s < (c.shelves.set store shelf').length
    rw [List.length_set]
    split at hjs
    next =>
      rcases hl.after with ha | ha
      · rw [ha] at hjs; cases hjs
      · rw [ha] at hjs
        exact Option.some.inj hjs ▸ hlt
    next => exact h.placed j s hjs
  · intro j s hjs
    rw [hinside] at hjs
    show ∃ other, (c.shelves.set store shelf')[s]? = some other ∧ _
    split at hjs
    next heq =>
      obtain ⟨rfl, hholder⟩ := hl.inside s hjs
      exact ⟨shelf', List.getElem?_set_self hlt, heq ▸ hholder⟩
    next hjid =>
      -- Another job inside keeps its lock, on the changed shelf as well.
      by_cases hss : store = s
      · subst hss
        exact ⟨shelf', List.getElem?_set_self hlt, hl.keeps (.job j) (by simpa using hjid) (h.holder_of_inside hjs hs)⟩
      · obtain ⟨other, hother, hholder⟩ := h.inside j s hjs
        exact ⟨other, by rw [List.getElem?_set, if_neg hss]; exact hother, hholder⟩

theorem transition (h : c.LocksSound) (hj : c.jobs[id]? = some job) {shelves : List Shelf}
    (ht : Transition c id job job.stage new shelves) :
    ({ c with shelves, cancelled, sweeper }.settle id job.stage new).LocksSound := by
  rcases h.lockChange hj ht with ⟨rfl, ho, hn⟩ | ⟨store, shelf, shelf', hs, rfl, hl⟩
  · exact h.settle_same hj ho hn
  · exact h.settle_set hj hs hl

theorem expiry (h : c.LocksSound) (hj : c.jobs[id]? = some job) {shelves : List Shelf}
    (he : Expiry c id job.stage new shelves) : ({ c with shelves }.settle id job.stage new).LocksSound := by
  cases he with
  | skip hk _ hs =>
    exact h.settle_set hj hs (.giveUp (h.sound _ _ hs) (.inr (Stage.claim?_of_sweeping? hk)) rfl _)

/-- The end of work that was left behind leaves all jobs where they are. -/
private theorem complete (h : c.LocksSound) {store : Nat} {shelf : Shelf} (hs : c.shelves[store]? = some shelf) :
    ({ c with shelves := c.shelves.set store shelf.released } : Cache).LocksSound where
  sound s other hother := by
    rcases Shelf.set_cases hother with ⟨-, rfl⟩ | ⟨-, hother⟩
    · exact (h.sound store shelf hs).release
    · exact h.sound s other hother
  members s other hother j := by
    rcases Shelf.set_cases hother with ⟨rfl, rfl⟩ | ⟨-, hother⟩
    · exact (iff_of_eq (congrArg (j ∈ ·) (Lock.members_release shelf.lock))).trans (h.members s shelf hs j)
    · exact h.members s other hother j
  placed j s hj := by
    show s < (c.shelves.set store shelf.released).length
    rw [List.length_set]
    exact h.placed j s hj
  inside j s hj := by
    by_cases hss : store = s
    · subst hss
      exact ⟨shelf.released, List.getElem?_set_self (List.getElem?_eq_some_iff.1 hs).1,
        Lock.holder_release (h.holder_of_inside hj hs)⟩
    · obtain ⟨other, hother, hholder⟩ := h.inside j s hj
      exact ⟨other, by rw [List.getElem?_set, if_neg hss]; exact hother, hholder⟩

private theorem start (h : c.LocksSound) (request : Request) (token : Token) :
    ({ c with jobs := c.jobs ++ [{ request, token : Job }] } : Cache).LocksSound := by
  have hstage (j : JobId) :
      (({ c with jobs := c.jobs ++ [{ request, token : Job }] } : Cache).stage? j).bind Stage.claim? = c.claim? j ∧
      (({ c with jobs := c.jobs ++ [{ request, token : Job }] } : Cache).stage? j).bind Stage.inside? =
        c.inside? j := by
    simp only [stage?, claim?, inside?, List.getElem?_append, List.getElem?_singleton]
    split
    next => exact ⟨rfl, rfl⟩
    next hge =>
      rw [List.getElem?_eq_none (by omega)]
      split <;> exact ⟨rfl, rfl⟩
  constructor
  · exact h.sound
  · intro s shelf hs j
    rw [claim?, (hstage j).1]
    exact h.members s shelf hs j
  · intro j s hs
    rw [claim?, (hstage j).1] at hs
    exact h.placed j s hs
  · intro j s hs
    rw [inside?, (hstage j).2] at hs
    exact h.inside j s hs

/-- Every event keeps the locks sound. -/
theorem step (h : c.LocksSound) (event : Event) : (c.step event).LocksSound := by
  have heffect := h.effect event
  generalize c.step event = c' at heffect ⊢
  cases heffect with
  | start => exact h.start _ _
  | turn _ hj ht => exact h.transition hj ht
  | skip _ hj he => exact h.expiry hj he
  | complete _ hs => exact h.complete hs
  | aside => exact h.of_eq rfl rfl

theorem steps (h : c.LocksSound) (events : List Event) : (c.steps events).LocksSound := by
  induction events generalizing c with
  | nil => exact h
  | cons event events ih => exact ih (h.step event)

/-- The mounts stay as they are. -/
theorem mounts_step (h : c.LocksSound) (event : Event) : (c.step event).mounts = c.mounts := by
  have heffect := h.effect event
  generalize c.step event = c' at heffect ⊢
  cases heffect <;> rfl

theorem mounts_steps (h : c.LocksSound) (events : List Event) : (c.steps events).mounts = c.mounts := by
  induction events generalizing c with
  | nil => rfl
  | cons event events ih => exact (ih (h.step event)).trans (h.mounts_step event)

theorem of_unused (h : c.Unused) : c.LocksSound := by
  have hnone (j : JobId) : c.claim? j = none ∧ c.inside? j = none := by simp [claim?, inside?, stage?, h.jobs]
  constructor
  · intro s shelf hs
    rw [h.free s shelf hs]
    exact Lock.sound_free
  · intro s shelf hs j
    rw [h.free s shelf hs, (hnone j).1]
    simp [Lock.members]
  · intro j s hs
    rw [(hnone j).1] at hs
    cases hs
  · intro j s hs
    rw [(hnone j).2] at hs
    cases hs

end LocksSound

theorem getElem?_fresh {mounts : MountTable Nat} {stores : List Store} {interval timeout : Nat} {clock : Clock}
    {s : Nat} {shelf : Shelf} (hs : (fresh mounts stores interval timeout clock).shelves[s]? = some shelf) :
    ∃ store, stores[s]? = some store ∧ shelf = { store } := by
  simp only [fresh, List.getElem?_map, Option.map_eq_some_iff] at hs
  obtain ⟨store, hstore, rfl⟩ := hs
  exact ⟨store, hstore, rfl⟩

theorem unused_fresh (mounts : MountTable Nat) (stores : List Store) (interval timeout : Nat) (clock : Clock) :
    (fresh mounts stores interval timeout clock).Unused := by
  refine ⟨rfl, fun s shelf hs => ?_⟩
  obtain ⟨store, -, rfl⟩ := getElem?_fresh hs
  rfl

end Cache

end RoutedCache

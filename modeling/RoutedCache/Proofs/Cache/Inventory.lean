import RoutedCache.Proofs.Cache.Doomed
import RoutedCache.Proofs.Cache.Touch

/-!
# A sweep in the store of a mount

A sweep takes up the listing of a mount, and then it deletes what the listing dooms, one record after the
other, while it has the lock of the store.  So in the meantime the store keeps all but what is doomed
(`Inventory.Kept`), and as long as no deletion has failed, nothing is left of what the sweep has dealt with
(`Inventory.Gone`).  `Cache.SweepSound` says this of the stages of a sweep, and every event keeps it
(`Cache.SweepSound.step`).
-/

namespace RoutedCache

/-- What is before a sweep when it takes up the listing of a mount: the mount, the time, and the entries that
the content of the store has shown. -/
structure Inventory where
  path : String
  store : Nat
  cycle : SweepCycle
  now : Instant
  entries : List KeyRecord
  content : Store

namespace Inventory

/-- An entry that the listing has shown dooms the key. -/
def Dooms (l : Inventory) (key : String) : Prop :=
  ∃ entry ∈ l.entries, entry.isDoomed l.path l.now = true ∧ entry.key = key

/-- The store has what was there at the listing, but for keys that are doomed. -/
def Kept (l : Inventory) (store : Store) : Prop :=
  ∀ key, store.cell? key = l.content.cell? key ∨ store.cell? key = none ∧ l.Dooms key

/-- Nothing is left under the keys that these entries doom. -/
def Gone (l : Inventory) (passed : List KeyRecord) (store : Store) : Prop :=
  ∀ entry ∈ passed, entry.isDoomed l.path l.now = true → store.cell? entry.key = none

/-- The sweep has passed these entries and come to a doomed one. -/
structure Deals (l : Inventory) (passed : List KeyRecord) (entry : KeyRecord) (mount : MountSweep) :
    Prop where
  path : mount.path = l.path
  clock : mount.clock = l.now
  split : l.entries = passed ++ entry :: mount.rest
  doomed : entry.isDoomed l.path l.now = true

/-- The stage of a sweep that is deleting records: as long as no deletion has failed, nothing is left under
the keys that it has dealt with. -/
inductive Clears (l : Inventory) (store : Store) : Stage → Prop
  | pausing {passed entry mount due} (hd : l.Deals passed entry mount)
      (hg : mount.report.failed = 0 → l.Gone passed store) :
      Clears l store (.pausing l.store (.evict entry.key mount l.cycle) due)
  | returned {passed entry mount reply} (hd : l.Deals passed entry mount)
      (hg : (MountSweep.count mount.report reply).failed = 0 → l.Gone (passed ++ [entry]) store) :
      Clears l store (.returned l.store (.evict entry.key mount l.cycle) reply)

variable {l : Inventory} {c : Cache} {id : JobId} {shelf shelf' : Shelf} {new : Stage}

theorem Deals.dooms {passed : List KeyRecord} {entry : KeyRecord} {mount : MountSweep}
    (h : l.Deals passed entry mount) :
    l.Dooms entry.key := ⟨entry, by rw [h.split]; simp, h.doomed, rfl⟩

end Inventory

/-- A shelf deletes as its store does, or it fails and changes nothing. -/
theorem Shelf.perform_delete (shelf : Shelf) (key : String) :
    ((shelf.perform (.delete key)).1 = .done ∧ ∀ key',
      (shelf.perform (.delete key)).2.store.cell? key' =
        if key' = key then none else shelf.store.cell? key') ∨
    ∃ fault, (shelf.perform (.delete key)).1 = .failed fault ∧
      (shelf.perform (.delete key)).2.store = shelf.store := by
  unfold Shelf.perform
  split
  next fault _ => exact .inr ⟨fault, rfl, rfl⟩
  next =>
    rcases shelf.store.perform_delete key with hdone | ⟨fault, hfailed⟩
    · exact .inl hdone
    · exact .inr ⟨fault, by rw [hfailed], by rw [hfailed]⟩

theorem Shelf.perform_listed {shelf : Shelf} {path : String} {entries : List KeyRecord}
    (h : (shelf.perform (.list path)).1 = .listed entries) :
    (shelf.store.perform (.list path)).1 = .listed entries := by
  unfold Shelf.perform at h
  split at h
  next => cases h
  next => exact h

namespace Inventory

variable {l : Inventory} {c : Cache} {id : JobId} {shelf shelf' : Shelf} {new : Stage}

theorem Kept.delete (h : l.Kept shelf.store) {key : String} (hdoomed : l.Dooms key) :
    l.Kept (shelf.perform (.delete key)).2.store := by
  rcases shelf.perform_delete key with ⟨-, hcells⟩ | ⟨-, -, hsame⟩
  · intro key'
    rw [hcells]
    split
    next heq => exact .inr ⟨rfl, heq ▸ hdoomed⟩
    next => exact h key'
  · rwa [hsame]

theorem Gone.delete {passed : List KeyRecord} (report : SweepReport) (entry : KeyRecord)
    (h : report.failed = 0 → l.Gone passed shelf.store)
    (hfailed : (MountSweep.count report (shelf.perform (.delete entry.key)).1).failed = 0) :
    l.Gone (passed ++ [entry]) (shelf.perform (.delete entry.key)).2.store := by
  rcases shelf.perform_delete entry.key with ⟨hdone, hcells⟩ | ⟨fault, hfault, -⟩
  · rw [hdone] at hfailed
    intro e he hdoomed
    rw [hcells]
    split
    next => rfl
    next hne =>
      rcases List.mem_append.1 he with he | he
      · exact h hfailed e he hdoomed
      · exact absurd (congrArg KeyRecord.key (List.mem_singleton.1 he)) hne
  · rw [hfault] at hfailed
    simp [MountSweep.count] at hfailed

/-- The sweep deletes a doomed record. -/
theorem Deals.delete {passed : List KeyRecord} {entry : KeyRecord} {mount : MountSweep}
    (hd : l.Deals passed entry mount) (hg : mount.report.failed = 0 → l.Gone passed shelf.store)
    (hk : l.Kept shelf.store) :
    l.Clears (shelf.perform (.delete entry.key)).2.store
        (.returned l.store (.evict entry.key mount l.cycle) (shelf.perform (.delete entry.key)).1) ∧
      l.Kept (shelf.perform (.delete entry.key)).2.store :=
  ⟨.returned hd (Gone.delete mount.report entry hg), hk.delete hd.dooms⟩

/-- The sweep deletes a doomed record, or it waits before it does. -/
theorem Deals.visits {passed : List KeyRecord} {entry : KeyRecord} {mount : MountSweep}
    (hd : l.Deals passed entry mount) (hg : mount.report.failed = 0 → l.Gone passed shelf.store)
    (hk : l.Kept shelf.store) (hv : Visits c id l.store shelf (.evict entry.key mount l.cycle) new shelf') :
    l.Clears shelf'.store new ∧ l.Kept shelf'.store := by
  cases hv with
  | pause => exact ⟨.pausing hd hg, hk⟩
  | call hc =>
    cases hc
    exact hd.delete hg hk

/-- A sweep that has dealt with some of the entries goes on to the next doomed one.  It leaves the mount
without one only if it has dealt with all of them or has been cancelled. -/
theorem sweepOn_cases {passed rest : List KeyRecord} {store : Store} {report : SweepReport}
    (cancelled : Bool) (hsplit : l.entries = passed ++ rest) (hg : report.failed = 0 → l.Gone passed store) :
    (∃ cycle', Visit.sweepOn l.path l.now cancelled report rest l.cycle = .move cycle' ∧
      (cancelled = false → cycle'.total.failed = l.cycle.total.failed → l.Gone l.entries store)) ∨
    ∃ passed' entry mount,
      Visit.sweepOn l.path l.now cancelled report rest l.cycle = .stay (.evict entry.key mount l.cycle) ∧
        l.Deals passed' entry mount ∧ (mount.report.failed = 0 → l.Gone passed' store) := by
  have hskip {skipped : List KeyRecord} (hskipped : ∀ e ∈ skipped, e.isDoomed l.path l.now = false)
      (h : l.Gone passed store) : l.Gone (passed ++ skipped) store := by
    intro e he hdoomed
    rcases List.mem_append.1 he with he | he
    · exact h e he hdoomed
    · rw [hskipped e he] at hdoomed
      cases hdoomed
  rcases Visit.sweepOn_cases l.path l.now cancelled report rest l.cycle with
    ⟨report', hmove, hrest⟩ | ⟨entry, mount, skipped, hstay, hpath, hclock, hdoomed, hsplit', hskipped⟩
  · refine .inl ⟨_, hmove, fun hc hfailed => ?_⟩
    have htotal := Visit.failed_sweepOn_move hmove
    rw [hsplit]
    exact hskip (hrest hc) (hg (by omega))
  · refine .inr ⟨passed ++ skipped, entry, mount, hstay, ⟨hpath, hclock, ?_, hdoomed⟩, fun hfailed => ?_⟩
    · rw [hsplit, hsplit', List.append_assoc]
    · rw [Visit.failed_sweepOn_stay hstay] at hfailed
      exact hskip hskipped (hg hfailed)

/-- What follows on a reply to a sweep that is deleting records. -/
theorem Clears.next {store : Store} {s : Nat} {visit : Visit} {reply : Reply}
    (h : l.Clears store (.returned s visit reply)) (clock : Clock) (cancelled : Bool) :
    (∃ cycle', visit.next clock cancelled reply = .move cycle' ∧
      (cancelled = false → cycle'.total.failed = l.cycle.total.failed → l.Gone l.entries store)) ∨
    ∃ passed entry mount, visit.next clock cancelled reply = .stay (.evict entry.key mount l.cycle) ∧
      l.Deals passed entry mount ∧ (mount.report.failed = 0 → l.Gone passed store) := by
  cases h with
  | @returned passed entry mount _ hd hg =>
    have hsplit : l.entries = (passed ++ [entry]) ++ mount.rest := by rw [hd.split]; simp
    have hcases := sweepOn_cases cancelled hsplit hg
    rw [← hd.path, ← hd.clock] at hcases
    exact hcases

end Inventory

namespace Cache

variable {c : Cache} {id : JobId} {l : Inventory}

/-- The job is about to take up the listing. -/
structure TakesUp (c : Cache) (id : JobId) (l : Inventory) : Prop where
  mount : (l.path, l.store) ∈ c.mounts.mounts
  stage : c.stage? id = some (.returned l.store (.list l.path l.cycle) (.listed l.entries))
  clock : c.clock.read? = some l.now
  content : c.stores[l.store]? = some l.content
  listing : (l.content.perform (.list l.path)).1 = .listed l.entries

/-- What follows on the listing. -/
theorem TakesUp.next (h : c.TakesUp id l) (cancelled : Bool) :
    (∃ cycle', (Visit.list l.path l.cycle).next c.clock cancelled (.listed l.entries) = .move cycle' ∧
      (cancelled = false → cycle'.total.failed = l.cycle.total.failed → l.Gone l.entries l.content)) ∨
    ∃ passed entry mount, (Visit.list l.path l.cycle).next c.clock cancelled (.listed l.entries) =
        .stay (.evict entry.key mount l.cycle) ∧
      l.Deals passed entry mount ∧ (mount.report.failed = 0 → l.Gone passed l.content) := by
  have hnext : (Visit.list l.path l.cycle).next c.clock cancelled (.listed l.entries) =
      Visit.sweepOn l.path l.now cancelled {} l.entries l.cycle := by
    simp only [Visit.next, Visit.listOn, h.clock]
  rw [hnext]
  exact Inventory.sweepOn_cases cancelled (List.nil_append _).symm fun _ => List.forall_mem_nil _

/-- From one event to another the job is at work in the store of the listing, which keeps all but what is
doomed. -/
structure Within (first : Cache) (early events : List Event) (id : JobId) (l : Inventory) : Prop where
  inside : ∀ mid, early <+: mid → mid <+: events → (first.steps mid).inside? id = some l.store
  kept : ∀ mid store, early <+: mid → mid <+: events →
    (first.steps mid).stores[l.store]? = some store → l.Kept store

theorem TakesUp.within {first : Cache} {early : List Event} (h : (first.steps early).TakesUp id l) :
    first.Within early early id l := by
  have hmid {mid : List Event} (h : early <+: mid) (h' : mid <+: early) : mid = early :=
    h'.eq_of_length_le h.length_le
  constructor
  · intro mid h' h''
    rw [hmid h' h'', inside?, h.stage]
    rfl
  · intro mid store h' h'' hs key
    rw [hmid h' h'', h.content] at hs
    cases hs
    exact .inl rfl

theorem Within.snoc {first : Cache} {early events : List Event} (h : first.Within early events id l)
    {event : Event} (hi : (first.steps (events ++ [event])).inside? id = some l.store)
    (hk : ∀ store, (first.steps (events ++ [event])).stores[l.store]? = some store → l.Kept store) :
    first.Within early (events ++ [event]) id l := by
  constructor
  · intro mid hearly hmid
    rcases List.prefix_concat_iff.1 hmid with rfl | hmid
    · exact hi
    · exact h.inside mid hearly hmid
  · intro mid store hearly hmid hs
    rcases List.prefix_concat_iff.1 hmid with rfl | hmid
    · exact hk store hs
    · exact h.kept mid store hearly hmid hs

/-- The mounts that a sweep of this mount has before it are mounts of the cache. -/
def Plans (c : Cache) (path : String) (s : Nat) (cycle : SweepCycle) : Prop :=
  (path, s) ∈ c.mounts.mounts ∧ ∀ mount ∈ cycle.rest, mount ∈ c.mounts.mounts

private theorem since_snoc {events early during : List Event} {event : Event}
    (h : events = early ++ event :: during) (next : Event) :
    events ++ [next] = early ++ event :: (during ++ [next]) := by
  rw [h, List.append_assoc, List.cons_append]

/-- What a sweep has done to its store, given its stage. -/
inductive SweepSound (first : Cache) (events : List Event) (id : JobId) : Stage → Prop
  | away {stage} (h : stage.claim? = none)
      (hc : ∀ cycle, stage = .between cycle → ∀ mount ∈ cycle.rest, mount ∈ first.mounts.mounts) :
      SweepSound first events id stage
  | queued {s path cycle} (hp : first.Plans path s cycle) :
      SweepSound first events id (.queued s (.list path cycle))
  | pausing {s path cycle due} (hp : first.Plans path s cycle) :
      SweepSound first events id (.pausing s (.list path cycle) due)
  | listed {s path cycle reply} (hp : first.Plans path s cycle)
      (hl : ∀ entries store, reply = .listed entries → (first.steps events).stores[s]? = some store →
        (store.perform (.list path)).1 = .listed entries) :
      SweepSound first events id (.returned s (.list path cycle) reply)
  | clearing {stage early during} {l : Inventory} {store} (hp : first.Plans l.path l.store l.cycle)
      (hsplit : events = early ++ .run id :: during) (ht : (first.steps early).TakesUp id l)
      (hw : first.Within early events id l) (hs : (first.steps events).stores[l.store]? = some store)
      (h : l.Clears store stage) : SweepSound first events id stage

namespace SweepSound

variable {first : Cache} {events : List Event} {job : Job} {old new : Stage} {shelves : List Shelf}

theorem plans (h : first.SweepSound events id old) {s : Nat} {cycle : SweepCycle}
    (hk : old.sweeping? = some (s, cycle)) : ∀ mount ∈ cycle.rest, mount ∈ first.mounts.mounts := by
  cases h with
  | away hnone =>
    rw [Stage.claim?_of_sweeping? hk] at hnone
    cases hnone
  | queued hp =>
    cases hk
    exact hp.2
  | pausing hp =>
    cases hk
    exact hp.2
  | listed hp =>
    cases hk
    exact hp.2
  | clearing hp _ _ _ _ h =>
    cases h <;> cases hk <;> exact hp.2

/-- A sweep stands where it stood after an event that leaves alone its stage and the store in which it is. -/
theorem frame (h : first.SweepSound events id old) {event : Event}
    (hstage : (first.steps (events ++ [event])).stage? id = some old)
    (hstore : ∀ s, old.inside? = some s →
      (first.steps (events ++ [event])).stores[s]? = (first.steps events).stores[s]?) :
    first.SweepSound (events ++ [event]) id old := by
  cases h with
  | away hnone hc => exact .away hnone hc
  | queued hp => exact .queued hp
  | pausing hp => exact .pausing hp
  | listed hp hl =>
    refine .listed hp fun entries store hreply hs' => ?_
    rw [hstore _ rfl] at hs'
    exact hl entries store hreply hs'
  | @clearing _ early during l store hp hsplit ht hw hcontent hclears =>
    have hin : old.inside? = some l.store := by cases hclears <;> rfl
    refine .clearing hp (since_snoc hsplit event) ht (hw.snoc ?_ fun store' hs' => ?_) ?_ hclears
    · rw [inside?, hstage]
      exact hin
    · rw [hstore _ hin] at hs'
      exact hw.kept events store' (hsplit ▸ List.prefix_append ..) List.prefix_rfl hs'
    · rw [hstore _ hin]
      exact hcontent

/-- A sweep that goes on without a lock has the mounts before it that it had. -/
theorem rest_of_move {clock : Clock} {cancelled : Bool} {reply : Reply} {s : Nat} {visit : Visit}
    {cycle cycle' : SweepCycle} (hk : (Stage.returned s visit reply).sweeping? = some (s, cycle))
    (h : visit.next clock cancelled reply = .move cycle') : cycle'.rest = cycle.rest := by
  have hsweepOn {path : String} {now : Instant} {report : SweepReport} {rest : List KeyRecord}
      {cycle : SweepCycle}
      (h : Visit.sweepOn path now cancelled report rest cycle = .move cycle') : cycle'.rest = cycle.rest := by
    unfold Visit.sweepOn at h
    split at h
    next =>
      cases h
      rfl
    next => cases h
  cases visit with
  | list path cycle =>
    cases hk
    cases reply with
    | listed entries =>
      simp only [Visit.next, Visit.listOn] at h
      split at h
      next => cases h
      next => exact hsweepOn h
    | _ =>
      cases h
      rfl
  | evict key mount cycle =>
    cases hk
    exact hsweepOn h
  | _ => cases hk

/-- A sweep that leaves a store has the mounts before it that it had. -/
private theorem leave {turn : Visit.Turn} {cycle' : SweepCycle} (h : first.SweepSound events id old)
    (hl : Leaves c job old turn) (hturn : turn.stage = .between cycle') :
    ∀ mount ∈ cycle'.rest, mount ∈ first.mounts.mounts := by
  cases hl with
  | cancelled =>
    cases h with
    | away hnone => cases hnone
    | queued hp =>
      cases hturn
      exact hp.2
    | clearing _ _ _ _ _ h => cases h
  | @next s visit reply _ hnext _ =>
    have hmove : visit.next c.clock (c.isCancelled job.token) reply = .move cycle' := by
      rw [hnext]
      cases turn with
      | move =>
        cases hturn
        rfl
      | _ => cases hturn
    obtain ⟨cycle, hk⟩ : ∃ cycle, (Stage.returned s visit reply).sweeping? = some (s, cycle) := by
      cases h with
      | away hnone => cases hnone
      | listed => exact ⟨_, rfl⟩
      | clearing _ _ _ _ _ h =>
        cases h
        exact ⟨_, rfl⟩
    rw [rest_of_move hk hmove]
    exact h.plans hk
  | held =>
    cases h with
    | away hnone => cases hnone
    | clearing _ _ _ _ _ h => cases h

/-- What a sweep asks for is the listing of a mount. -/
private theorem wants (h : first.SweepSound events id old) (hr : job.request.Sweeps) {s : Nat} {visit : Visit}
    (hw : Wants c job old s visit) : ∃ path cycle, visit = .list path cycle ∧ first.Plans path s cycle := by
  cases hw with
  | call hroute => rcases hr with hr | hr <;> rw [hr] at hroute <;> cases hroute
  | mount hrest =>
    cases h with
    | away _ hc =>
      have hall := hc _ rfl
      rw [hrest] at hall
      exact ⟨_, _, rfl, hall _ List.mem_cons_self, fun mount hmem => hall mount (List.mem_cons_of_mem _ hmem)⟩
    | clearing _ _ _ _ _ h => cases h

/-- A sweep that has the listing of a mount is about to take it up. -/
theorem takesUp {path : String} {s : Nat} {cycle : SweepCycle} {entries : List KeyRecord} {store : Store}
    {now : Instant} (hp : first.Plans path s cycle)
    (hl : ∀ entries' store, Reply.listed entries = .listed entries' →
      (first.steps events).stores[s]? = some store → (store.perform (.list path)).1 = .listed entries')
    (hmounts : (first.steps events).mounts = first.mounts)
    (hbefore : (first.steps events).stage? id = some (.returned s (.list path cycle) (.listed entries)))
    (hcontent : (first.steps events).stores[s]? = some store)
    (hclock : (first.steps events).clock.read? = some now) :
    (first.steps events).TakesUp id { path, store := s, cycle, now, entries, content := store } where
  mount := hmounts ▸ hp.1
  stage := hbefore
  clock := hclock
  content := hcontent
  listing := hl entries store rfl hcontent

section Turn

variable (hstores : (first.steps (events ++ [.run id])).stores = storesOn shelves)

include hstores

private theorem getElem?_content {s : Nat} {shelf shelf' : Shelf}
    (hs : (first.steps events).shelves[s]? = some shelf)
    (hshelves : shelves = (first.steps events).shelves.set s shelf') :
    (first.steps (events ++ [.run id])).stores[s]? = some shelf'.store := by
  rw [hstores, hshelves, getElem?_storesOn_set hs]

/-- The sweep has made a listing. -/
private theorem lists {path : String} {s : Nat} {cycle : SweepCycle} {shelf asked : Shelf}
    (hp : first.Plans path s cycle) (hs : (first.steps events).shelves[s]? = some shelf)
    (hshelves : shelves = (first.steps events).shelves.set s (asked.perform (.list path)).2) :
    first.SweepSound (events ++ [.run id]) id
      (.returned s (.list path cycle) (asked.perform (.list path)).1) := by
  refine .listed hp fun entries store hreply hs' => ?_
  rw [getElem?_content hstores hs hshelves] at hs'
  cases hs'
  rw [Shelf.store_perform (by rw [hreply]; simp)]
  exact Shelf.perform_listed hreply

/-- The sweep is about to list the records of a store, or it has done so. -/
private theorem visits {path : String} {s : Nat} {cycle : SweepCycle} {shelf asked shelf' : Shelf}
    (hp : first.Plans path s cycle) (hs : (first.steps events).shelves[s]? = some shelf)
    (hv : Visits (first.steps events) id s asked (.list path cycle) new shelf')
    (hshelves : shelves = (first.steps events).shelves.set s shelf') :
    first.SweepSound (events ++ [.run id]) id new := by
  cases hv with
  | pause => exact .pausing hp
  | call hc =>
    cases hc
    exact lists hstores hp hs hshelves

variable (hstage : (first.steps (events ++ [.run id])).stage? id = some new)

include hstage

/-- The sweep is deleting records. -/
private theorem clears {early during : List Event} {shelf shelf' : Shelf}
    (hp : first.Plans l.path l.store l.cycle) (hsplit : events ++ [.run id] = early ++ .run id :: during)
    (ht : (first.steps early).TakesUp id l)
    (hw : first.Within early events id l) (hs : (first.steps events).shelves[l.store]? = some shelf)
    (hshelves : shelves = (first.steps events).shelves.set l.store shelf')
    (h : l.Clears shelf'.store new ∧ l.Kept shelf'.store) :
    first.SweepSound (events ++ [.run id]) id new := by
  obtain ⟨hclears, hkept⟩ := h
  have hcontent := getElem?_content hstores hs hshelves
  refine .clearing hp hsplit ht (hw.snoc ?_ fun store hs' => ?_) hcontent hclears
  · rw [inside?, hstage]
    cases hclears <;> rfl
  · rw [hcontent] at hs'
    cases hs'
    exact hkept

/-- A sweep that stays in a store goes on to a doomed record. -/
private theorem stay {s : Nat} {visit visit' : Visit} {reply : Reply} {cancelled : Bool}
    {shelf shelf' : Shelf} (h : first.SweepSound events id (.returned s visit reply))
    (hmounts : (first.steps events).mounts = first.mounts)
    (hbefore : (first.steps events).stage? id = some (.returned s visit reply))
    (hs : (first.steps events).shelves[s]? = some shelf)
    (hnext : visit.next (first.steps events).clock cancelled reply = .stay visit')
    (hv : Visits (first.steps events) id s shelf visit' new shelf')
    (hshelves : shelves = (first.steps events).shelves.set s shelf') :
    first.SweepSound (events ++ [.run id]) id new := by
  have hcontent := store_of_shelf hs
  cases h with
  | away hnone => cases hnone
  | @listed _ path cycle _ hp hl =>
    cases reply with
    | listed entries =>
      cases hclock : (first.steps events).clock.read? with
      | none => simp [Visit.next, Visit.listOn, hclock] at hnext
      | some now =>
        have htakes := takesUp hp hl hmounts hbefore hcontent hclock
        rcases htakes.next cancelled with ⟨cycle', heq, -⟩ | ⟨passed, entry, mount, heq, hd, hg⟩
        · rw [hnext] at heq
          cases heq
        · rw [hnext] at heq
          cases heq
          exact clears hstores hstage hp rfl htakes htakes.within hs hshelves
            (hd.visits hg (fun _ => .inl rfl) hv)
    | _ => cases hnext
  | @clearing _ early during l store hp hsplit htakes hw hstore h =>
    rcases h.next (first.steps events).clock cancelled with
      ⟨cycle', heq, -⟩ | ⟨passed, entry, mount, heq, hd, hg⟩
    · rw [hnext] at heq
      cases heq
    · rw [hnext] at heq
      cases heq
      obtain rfl : s = l.store := by cases h; rfl
      obtain rfl : shelf.store = store := Option.some.inj (hcontent.symm.trans hstore)
      -- What the store has kept since the listing, it has kept up to this deletion.
      refine clears hstores hstage hp (since_snoc hsplit _) htakes hw hs hshelves
        (hd.visits hg ?_ hv)
      exact hw.kept events shelf.store (hsplit ▸ List.prefix_append ..) List.prefix_rfl hcontent

/-- A sweep that has waited makes its call. -/
private theorem call {s due : Nat} {visit : Visit} {call : StoreCall} {shelf : Shelf}
    (h : first.SweepSound events id (.pausing s visit due))
    (hs : (first.steps events).shelves[s]? = some shelf) (hc : visit.call? = some call)
    (hnew : new = .returned s visit (shelf.perform call).1)
    (hshelves : shelves = (first.steps events).shelves.set s (shelf.perform call).2) :
    first.SweepSound (events ++ [.run id]) id new := by
  cases h with
  | away hnone => cases hnone
  | pausing hp =>
    cases hc
    rw [hnew]
    exact lists hstores hp hs hshelves
  | @clearing _ early during l store hp hsplit htakes hw hcontent h =>
    cases h with
    | pausing hd hg =>
      cases hc
      obtain rfl : shelf.store = store := Option.some.inj ((store_of_shelf hs).symm.trans hcontent)
      refine clears hstores hstage hp (since_snoc hsplit _) htakes hw hs hshelves ?_
      rw [hnew]
      refine hd.delete hg ?_
      exact hw.kept events shelf.store (hsplit ▸ List.prefix_append ..) List.prefix_rfl hcontent

/-- Every turn of a sweep does what a sweep does. -/
theorem turn (hu : first.Unused) (h : first.SweepSound events id job.stage)
    (hj : (first.steps events).jobs[id]? = some job) (hr : job.request.Sweeps)
    (ht : Transition (first.steps events) id job job.stage new shelves) :
    first.SweepSound (events ++ [.run id]) id new := by
  have hmounts := (LocksSound.of_unused hu).mounts_steps events
  have hbefore := stage?_eq hj
  generalize job.stage = old at h ht hbefore
  cases ht with
  | aside ha =>
    refine .away (claim?_aside ha).2 ?_
    rintro cycle rfl
    cases ha with
    | sweep => exact fun mount hmem => hmounts ▸ hmem
    | wake => exact fun mount hmem => hmounts ▸ hmem
  | refuse hw hs =>
    obtain ⟨path, cycle, rfl, hp⟩ := h.wants hr hw
    exact .away rfl fun cycle' heq => by cases heq; exact hp.2
  | cancel hw hs =>
    obtain ⟨path, cycle, rfl, hp⟩ := h.wants hr hw
    exact .away rfl fun cycle' heq => by cases heq; exact hp.2
  | queue hw hs =>
    obtain ⟨path, cycle, rfl, hp⟩ := h.wants hr hw
    exact .queued hp
  | enter hw hs _ _ _ hv =>
    obtain ⟨path, cycle, rfl, hp⟩ := h.wants hr hw
    exact visits hstores hp hs hv rfl
  | grant hs _ _ hv =>
    cases h with
    | away hnone => cases hnone
    | queued hp => exact visits hstores hp hs hv rfl
    | clearing _ _ _ _ _ h => cases h
  | call hs hc => exact h.call hstores hstage hs hc rfl rfl
  | stay hs hnext hv => exact h.stay hstores hstage hmounts hbefore hs hnext hv rfl
  | leave hk hs hl => exact .away (Visit.Turn.claim?_stage _) fun cycle' heq => h.leave hl heq

end Turn

/-- Every event does to a sweep what it may. -/
theorem step (hu : first.Unused) {event : Event}
    (h : ∀ job, (first.steps events).jobs[id]? = some job → job.request.Sweeps →
      first.SweepSound events id job.stage)
    (hj : (first.steps (events ++ [event])).jobs[id]? = some job) (hr : job.request.Sweeps) :
    first.SweepSound (events ++ [event]) id job.stage := by
  have hlocks := (LocksSound.of_unused hu).steps events
  have hafter := stage?_eq hj
  rw [steps_snoc] at hj
  cases hbefore : (first.steps events).jobs[id]? with
  | none =>
    rw [(hlocks.job_new hbefore hj).2]
    exact .away rfl nofun
  | some old =>
    by_cases hm : event.Moves id
    · have hmoved := hlocks.moved hbefore hm
      rw [← steps_snoc] at hj hmoved
      cases hmoved with
      | same heq =>
        rw [heq, hbefore] at hj
        cases hj
        exact (h job hbefore hr).frame hafter fun s _ => by rw [heq]
      | turn he ht hstores hnew =>
        cases hj.symm.trans hnew
        subst he
        exact turn hstores hafter hu (h old hbefore hr) hbefore hr ht
      | skip he hx _ hnew =>
        cases hj.symm.trans hnew
        cases hx with
        | skip hk =>
          have hplans := (h old hbefore hr).plans hk
          exact .away rfl fun cycle heq => by cases heq; exact hplans
    · -- The turn of another job leaves the store alone in which the sweep is at work.
      rw [hlocks.job_same hbefore hm] at hj
      cases hj
      refine (h job hbefore hr).frame hafter fun s hi => ?_
      rw [steps_snoc]
      exact hlocks.store_same (by rw [inside?_eq hbefore]; exact hi) hm

theorem steps (hu : first.Unused) (events : List Event) (hj : (first.steps events).jobs[id]? = some job)
    (hr : job.request.Sweeps) : first.SweepSound events id job.stage := by
  have hall (before after : List Event)
      (h : ∀ job, (first.steps before).jobs[id]? = some job → job.request.Sweeps →
        first.SweepSound before id job.stage) :
      ∀ job, (first.steps (before ++ after)).jobs[id]? = some job → job.request.Sweeps →
        first.SweepSound (before ++ after) id job.stage := by
    induction after generalizing before with
    | nil => simpa using h
    | cons event after ih =>
      have hnext := ih (before ++ [event]) fun job hj hr => step hu h hj hr
      simpa using hnext
  -- At the start there are no jobs.
  refine hall [] events (fun job hj => ?_) job hj hr
  have hnone : first.jobs[id]? = some job := hj
  rw [hu.jobs] at hnone
  cases hnone

end SweepSound

end Cache

end RoutedCache

import RoutedCache.Proofs.Cache.Background
import RoutedCache.Proofs.Disk

/-!
# Files of a session

The documents of a session lie in its open stores and, as far as their files are closed, on its disk
(`Session.documents`).  Opening stores, closing them and building a cache leave all of them as they are, at
whatever store or mount a build fails (`Session.Apart.build`), and so does the end of a cache without open
calls (`Session.Sound.takeDown`); by induction, so does any number of restarts (`Session.Sound.restarts`).
-/

namespace RoutedCache

theorem Store.file?_of_kind {store : Store} (h : store.kind ≠ "document") : store.file? = none := by
  cases store with
  | document => exact absurd rfl h
  | _ => rfl

/-- The files of stores that have names. -/
def filesOf (stores : List (String × Store)) : Files := stores.filterMap fun entry => entry.2.file?

namespace Session

/-- The stores that are open; a cache owns them. -/
def openStores (s : Session) : List Store :=
  match s.schedule with
  | some schedule => schedule.cache.stores
  | none => s.stores.map (·.2)

def files (s : Session) : Files := s.openStores.filterMap Store.file?

/-- The documents of a collection in the file at a place: those of the open store on the file, or else those
on the disk. -/
def documents (s : Session) (place : Place) (collection : String) : Documents :=
  s.disk.documentsWith s.files place collection

variable {s s' : Session}

theorem files_of_closed (h : s.schedule = none) : s.files = filesOf s.stores := by
  simp [files, openStores, h, filesOf, List.filterMap_map]

/-- Without a cache the stores of the session are its files, and it has the same documents as before. -/
structure Apart (disk : Disk) (files : Files) (s : Session) : Prop where
  schedule : s.schedule = none
  same : disk.SameDocuments files s.disk (filesOf s.stores)

private theorem foldl_closeStore (stores : List (String × Store)) (disk : Disk) :
    stores.foldl (fun disk entry => disk.closeStore entry.2) disk =
      (filesOf stores).foldl Disk.closeFile disk := by
  rw [← List.foldl_map, Disk.closeStore_all, List.filterMap_map]
  rfl

private theorem filesOf_append (stores others : List (String × Store)) :
    filesOf (stores ++ others) = filesOf stores ++ filesOf others := List.filterMap_append

private theorem filesOf_concat (stores : List (String × Store)) (name : String) (store : Store) :
    filesOf (stores ++ [(name, store)]) = filesOf stores ++ store.file?.toList := by
  rw [filesOf_append]
  cases h : store.file? <;> simp [filesOf, h]

/-- The stores that have a name, and the others. -/
private theorem perm_partition (stores : List (String × Store)) (p : String × Store → Bool) :
    (filesOf stores).Perm (filesOf (stores.filter p) ++ filesOf (stores.filter fun entry => !p entry)) := by
  rw [← filesOf_append]
  exact ((List.filter_append_perm p stores).symm.filterMap _)

variable {disk : Disk} {files : Files}

/-- A store that has been opened is added, and one that was open under its name is closed. -/
theorem Apart.add (hs : s.schedule = none) {store : Store}
    (h : disk.SameDocuments files s.disk (store.file?.toList ++ filesOf s.stores)) (name : String) :
    Apart disk files (s.add name store) := by
  refine ⟨hs, ?_⟩
  -- The stores with the name come to the front, where they are closed.
  have hperm : (store.file?.toList ++ filesOf s.stores).Perm
      (filesOf (s.stores.filter fun entry => entry.1 = name) ++
        filesOf ((s.stores.filter fun entry => !decide (entry.1 = name)) ++ [(name, store)])) := by
    rw [filesOf_concat, ← List.append_assoc]
    exact ((perm_partition s.stores _).append_left _).trans List.perm_append_comm
  have hall := h.perm hperm
  have hclose := hall.trans (Disk.sameDocuments_close hall.holds)
  unfold Session.add
  rw [List.partition_eq_filter_filter]
  dsimp only
  rw [foldl_closeStore]
  exact hclose

theorem file?_kept {kind : String} (hk : kind ≠ "document") {store : Store} (hstore : store.file? = none)
    (name : String) : ((s.kept? name kind).getD store).file? = none := by
  unfold kept?
  cases hfind : s.kept.find? fun old => old.1 = name && old.2.kind = kind with
  | none => exact hstore
  | some old =>
    have hfound := List.find?_some hfind
    simp only [Bool.and_eq_true, decide_eq_true_eq] at hfound
    exact Store.file?_of_kind (hfound.2 ▸ hk)

/-- Opening one more store leaves all documents as they are, whatever comes of it. -/
theorem Apart.openStore (h : Apart disk files s) (setup : StoreSetup) :
    Apart disk files (s.openStore setup).1 := by
  have hmemory {store : Store} (hn : store.file? = none) (name : String) :
      Apart disk files (s.add name store) := by
    refine .add h.schedule ?_ name
    rw [hn]
    exact h.same
  unfold Session.openStore
  split
  next => exact hmemory (file?_kept (by decide) rfl _) _
  next => exact hmemory (file?_kept (by decide) rfl _) _
  next file collection _ =>
    dsimp only
    rcases s.disk.openStore_cases file collection with
      ⟨fault, hfault, hkeeps⟩ | ⟨prepared, store, hok, hkeeps, hopens⟩
    · generalize s.disk.openStore file collection = opened at hfault hkeeps ⊢
      obtain ⟨disk', outcome⟩ := opened
      cases hfault
      exact ⟨h.schedule, h.same.trans (hkeeps.sameDocuments h.same.holds)⟩
    · generalize s.disk.openStore file collection = opened at hok hkeeps hopens ⊢
      obtain ⟨disk', outcome⟩ := opened
      cases hok
      have hprepared := h.same.trans (hkeeps.sameDocuments h.same.holds)
      have hadd := hprepared.trans (hopens.sameDocuments hprepared.holds)
      exact Apart.add (s := { s with paths := s.paths ++ [file], disk := disk' }) h.schedule hadd _

/-- Opening stores leaves all documents as they are, whichever of them cannot be opened. -/
theorem Apart.openAll (h : Apart disk files s) (setups : List StoreSetup) :
    Apart disk files (s.openAll setups).1 := by
  induction setups generalizing s with
  | nil => exact h
  | cons setup rest ih =>
    have hfirst := h.openStore setup
    unfold Session.openAll
    split
    next heq => rw [heq] at hfirst; exact hfirst
    next heq => rw [heq] at hfirst; exact ih hfirst

theorem Apart.closeAll (h : Apart disk files s) : Apart disk files s.closeAll := by
  refine ⟨h.schedule, ?_⟩
  have hholds : s.disk.Holds (filesOf s.stores ++ []) := (List.append_nil _).symm ▸ h.same.holds
  have hclose := Disk.sameDocuments_close hholds
  rw [← foldl_closeStore, List.append_nil] at hclose
  exact h.same.trans hclose

/-! ### Building a cache -/

theorem filterMap_of_map {α β : Type} {f : α → Option β} {l l' : List α} (h : l'.map f = l.map f) :
    l'.filterMap f = l.filterMap f := by
  have hid (l : List α) : (l.map f).filterMap id = l.filterMap f := by simp [List.filterMap_map]
  rw [← hid, h, hid]

/-- The cache of a session is sound, and its stores are those of the session. -/
structure Sound (s : Session) : Prop where
  holds : s.disk.Holds s.files
  cache : ∀ schedule, s.schedule = some schedule →
    schedule.cache.Sound ∧ schedule.cache.shelves.length = s.stores.length

/-- All calls to the cache are over; holds and the sweeper may go on. -/
def Settled (s : Session) : Prop := ∀ schedule ∈ s.schedule, schedule.cache.Settled

instance (s : Session) : Decidable s.Settled :=
  inferInstanceAs (Decidable (∀ schedule ∈ s.schedule, schedule.cache.Settled))

theorem Apart.sound (h : Apart disk files s) : s.Sound where
  holds := by
    rw [files_of_closed h.schedule]
    exact h.same.holds
  cache schedule hs := by
    rw [h.schedule] at hs
    cases hs

theorem sound_freshCache (s : Session) (setup : Setup) (mounts : MountTable Nat) :
    (s.freshCache setup mounts).Sound where
  locks := by
    have hfresh := (Cache.LocksSound.of_unused
      (Cache.unused_fresh mounts (s.stores.map (·.2)) setup.intervalMillis
      setup.timeoutMillis s.clock)).step (.start .sweeper .shutdown)
    refine hfresh.of_eq rfl ?_
    simp [freshCache, Cache.step, Cache.fresh]
  background id job hj _ := by
    rw [List.mem_singleton.1 (List.mem_of_getElem? hj)]
    exact .ready

/-- A cache that has just been built has the files of the stores that were opened for it. -/
private theorem files_firstTurn (s : Session) (setup : Setup) (mounts : MountTable Nat) :
    ({ cache := s.freshCache setup mounts : Schedule }.turn 0).cache.stores.filterMap Store.file? =
      filesOf s.stores := by
  have hturn : ({ cache := s.freshCache setup mounts : Schedule }.turn 0).cache.files =
      (s.freshCache setup mounts).files := by
    have hj : (s.freshCache setup mounts).jobs[0]? = some { request := .sweeper, token := .shutdown } := rfl
    have hfrom := (sound_freshCache s setup mounts).files_turnFrom hj rfl (fun _ hin => by cases hin)
      Schedule.patience
    unfold Schedule.turn Schedule.noteAnswer
    split <;> exact hfrom
  rw [filterMap_of_map hturn]
  simp [freshCache, Cache.stores, storesOn, filesOf, List.filterMap_map, Function.comp_def]

/-- Building leaves all documents as they are, whatever comes of it, and so does the first turn of the
sweeper. -/
theorem Apart.build (h : Apart disk files s) (setup : Setup) :
    (s.build setup).1.Sound ∧ (s.build setup).1.Settled ∧
      disk.SameDocuments files (s.build setup).1.disk (s.build setup).1.files := by
  have hopen := h.openAll setup.stores
  have hclosed {s : Session} (h : Apart disk files s) :
      s.Sound ∧ s.Settled ∧ disk.SameDocuments files s.disk s.files := by
    refine ⟨h.sound, fun schedule hs => ?_, ?_⟩
    · rw [h.schedule] at hs
      cases hs
    · rw [files_of_closed h.schedule]
      exact h.same
  unfold Session.build
  split
  next heq =>
    rw [heq] at hopen
    exact hclosed hopen
  next s' heq =>
    rw [heq] at hopen
    split
    next => exact hclosed hopen
    next mounts _ =>
      dsimp only
      have hsound := sound_freshCache s' setup mounts
      have hdrifts := Schedule.drifts_turn { cache := s'.freshCache setup mounts } 0
      have hsame := hopen.same
      rw [← files_firstTurn s' setup mounts] at hsame
      refine ⟨⟨hsame.holds, fun schedule hs => ?_⟩, fun schedule hs => ?_, hsame⟩
      · cases hs
        obtain ⟨events, -, heq'⟩ := hdrifts
        rw [heq']
        refine ⟨hsound.steps events, (hsound.locks.length_steps events).trans ?_⟩
        simp [freshCache]
      · cases hs
        refine Cache.Settled.drifts (fun job hm => ?_) hsound.locks hdrifts
        rw [List.mem_singleton.1 hm]
        exact .inr ⟨trivial, fun _ => rfl⟩

/-! ### The end of a cache -/

private theorem places_of_bare {stores stores' : List Store}
    (h : stores'.map Store.bare = stores.map Store.bare) :
    (stores'.filterMap Store.file?).map (·.1) = (stores.filterMap Store.file?).map (·.1) := by
  have hbare (stores : List Store) : (stores.filterMap Store.file?).map (·.1) =
      (stores.map Store.bare).filterMap fun store => store.file?.map (·.1) := by
    simp [List.map_filterMap, List.filterMap_map, Store.file?_bare]
  rw [hbare, hbare, h]

/-- The cache after its shutdown. -/
def last (schedule : Schedule) : Cache := (schedule.call .shutdown .never).1.cache

theorem schedule_takeDown (s : Session) : s.takeDown.schedule = none := by
  unfold takeDown
  split
  next h => exact h
  next => rfl

/-- The end of a cache gives the session its stores back. -/
theorem Sound.takeDown_some (h : s.Sound) {schedule : Schedule} (hs : s.schedule = some schedule) :
    s.takeDown.disk = s.disk ∧ filesOf s.takeDown.stores = (last schedule).stores.filterMap Store.file? := by
  obtain ⟨hsound, hlength⟩ := h.cache schedule hs
  obtain ⟨events, hlast⟩ := schedule.runs_call .shutdown .never
  have hlength' : (last schedule).shelves.length = s.stores.length := by
    rw [last, hlast, hsound.locks.length_steps, hlength]
  unfold takeDown
  rw [hs]
  dsimp only
  unfold last at hlength' ⊢
  generalize (schedule.call .shutdown .never).1.cache = c at hlength' ⊢
  refine ⟨rfl, ?_⟩
  have hzip : (s.stores.zip c.shelves).map (·.2) = c.shelves := List.map_snd_zip (by omega)
  have hshelves : c.stores.filterMap Store.file? =
      ((s.stores.zip c.shelves).map (·.2)).filterMap fun shelf => shelf.store.file? := by
    rw [hzip, Cache.stores, storesOn, List.filterMap_map]
    rfl
  rw [hshelves, filesOf, List.filterMap_map, List.filterMap_map]
  rfl

/-- The end of a cache leaves the session with its files, and if all calls are over, with its documents. -/
theorem Sound.takeDown (h : s.Sound) : Apart s.disk (filesOf s.takeDown.stores) s.takeDown ∧
    (s.Settled → filesOf s.takeDown.stores = s.files) := by
  cases hs : s.schedule with
  | none =>
    have hsame : s.takeDown = s := by
      unfold Session.takeDown
      rw [hs]
    have hholds := h.holds
    rw [files_of_closed hs] at hholds
    rw [hsame, files_of_closed hs]
    exact ⟨⟨hs, .refl hholds⟩, fun _ => rfl⟩
  | some schedule =>
    have hsound := (h.cache schedule hs).1
    have hopen : s.files = schedule.cache.stores.filterMap Store.file? := by
      simp only [files, openStores, hs]
    obtain ⟨hdisk, hfiles⟩ := h.takeDown_some hs
    have hholds : s.disk.Holds (filesOf s.takeDown.stores) := by
      obtain ⟨events, hlast⟩ := schedule.runs_call .shutdown .never
      refine h.holds.of_places ?_
      rw [hfiles, hopen, last, hlast]
      exact places_of_bare (hsound.locks.bare_steps events)
    refine ⟨⟨schedule_takeDown s, ?_⟩, fun hsettled => ?_⟩
    · rw [hdisk]
      exact .refl hholds
    · rw [hfiles, hopen]
      exact filterMap_of_map (Cache.files_shutdown hsound (hsettled schedule hs))

/-- A restart leaves every document as the end of the cache has left it, whatever comes of the restart. -/
theorem Sound.restart (h : s.Sound) (setup : Setup) :
    (s.restart setup).1.Sound ∧ (s.restart setup).1.Settled ∧ ∀ place collection,
      (s.restart setup).1.documents place collection = s.takeDown.documents place collection := by
  obtain ⟨⟨hnone, hsame⟩, -⟩ := h.takeDown
  have hdown : Apart s.takeDown.disk (filesOf s.takeDown.stores) s.takeDown := ⟨hnone, .refl hsame.holds⟩
  obtain ⟨hsound, hsettled, hbuilt⟩ := hdown.closeAll.build setup
  -- The stores are still open at the end of the cache, and after the build the new ones are.
  refine ⟨hsound, hsettled, fun place collection => (hbuilt.documents place collection).trans ?_⟩
  rw [Session.documents, files_of_closed hnone]

theorem Sound.documents_takeDown (h : s.Sound) (hs : s.Settled) (place : Place) (collection : String) :
    s.takeDown.documents place collection = s.documents place collection := by
  obtain ⟨⟨hnone, hsame⟩, hfiles⟩ := h.takeDown
  rw [Session.documents, files_of_closed hnone, hsame.documents place collection, hfiles hs,
    Session.documents]

/-! ### Restarts -/

/-- One restart after the other, whatever comes of each. -/
def restarts (s : Session) (setups : List Setup) : Session :=
  setups.foldl (fun s setup => (s.restart setup).1) s

/-- Any number of restarts leave every document as the end of the cache has left it. -/
theorem Sound.restarts (h : s.Sound) (setup : Setup) (setups : List Setup) :
    (s.restarts (setup :: setups)).Sound ∧ ∀ place collection,
      (s.restarts (setup :: setups)).documents place collection = s.takeDown.documents place collection := by
  induction setups generalizing s setup with
  | nil => exact ⟨(h.restart setup).1, (h.restart setup).2.2⟩
  | cons next rest ih =>
    obtain ⟨hsound, hsettled, hdocuments⟩ := h.restart setup
    obtain ⟨hlast, hsame⟩ := ih hsound next
    refine ⟨hlast, fun place collection => (hsame place collection).trans ?_⟩
    rw [hsound.documents_takeDown hsettled, hdocuments]

/-- The session can come about: it starts with any disk, it is restarted in any way, and between the restarts
anything happens to the cache. -/
inductive Reached : Session → Prop
  | first (script : Script) : Reached script.firstSession
  | restart {s : Session} (h : Reached s) (setup : Setup) : Reached (s.restart setup).1
  | runs {s : Session} {schedule schedule' : Schedule} (h : Reached s) (hs : s.schedule = some schedule)
      (hr : schedule.cache.Runs schedule'.cache) (counters : Option Counters) :
      Reached { s with schedule := some schedule', counters }

theorem Reached.sound (h : s.Reached) : s.Sound := by
  induction h with
  | first script =>
    have hnone : Apart script.firstSession.disk [] script.firstSession := ⟨rfl, .refl ⟨.nil, nofun, nofun⟩⟩
    exact hnone.sound
  | restart _ setup ih => exact (ih.restart setup).1
  | @runs s schedule schedule' _ hs hr _ ih =>
    obtain ⟨events, heq⟩ := hr
    obtain ⟨hsound, hlength⟩ := ih.cache schedule hs
    refine ⟨ih.holds.of_places ?_, fun schedule'' hs' => ?_⟩
    · simp only [files, openStores, hs, heq]
      exact places_of_bare (hsound.locks.bare_steps events)
    · cases hs'
      rw [heq]
      exact ⟨hsound.steps events, (hsound.locks.length_steps events).trans hlength⟩

theorem Reached.note (h : s.Reached) : s.note.Reached := by
  unfold Session.note
  split
  next schedule hs =>
    have hsame := h.runs hs (.refl schedule.cache) (some schedule.cache.counters)
    rwa [← hs] at hsame
  next => exact h

/-- Whatever the actions of a script lead to can come about. -/
theorem Reached.actAll {actions : List Action} {answers : List (ActionAnswer × Nat)} (h : s.Reached)
    (hs : s.actAll actions = some (s', answers)) : s'.Reached := by
  induction actions generalizing s answers with
  | nil =>
    cases hs
    exact h
  | cons action rest ih =>
    have hgo {s₁ : Session} (h : s₁.Reached)
        {f : Session × List (ActionAnswer × Nat) → List (ActionAnswer × Nat)}
        (hs : ((s₁.actAll rest).map fun last => (last.1, f last)) = some (s', answers)) : s'.Reached := by
      obtain ⟨⟨last, answers'⟩, hrest, heq⟩ := Option.map_eq_some_iff.1 hs
      cases heq
      exact ih h hrest
    unfold Session.actAll at hs
    split at hs
    next heq => cases heq
    next setup rest' heq =>
      cases heq
      have hrestart := h.restart setup
      split at hs
      next => cases hs
      next next outcome hnext =>
        rw [hnext] at hrestart
        exact hgo hrestart.note hs
    next action' rest' _ heq =>
      cases heq
      split at hs
      next => cases hs; exact h
      next schedule hschedule =>
        split at hs
        next => cases hs
        next schedule' answer hact =>
          exact hgo (h.runs hschedule (s.runs_act hact) s.counters).note hs

end Session

end RoutedCache

import Mathlib
import RoutedCache.Proofs.Cache.Reads
import RoutedCache.Proofs.Session.Files

/-!
# Reads across restarts

Restarts leave the documents of a session as they are, and the answer to a read hangs on the documents of the
collection that its key leads to.  So the cache after some restarts answers every read as the cache before
them did, if their mounts lead to the same collections (`Session.outlives_restarts`), which they do if they
are built with the same stores and mounts (`Session.bindings_restart`).
-/

namespace RoutedCache

theorem Store.home?_of_file? {store : Store} (h : store.file? = none) : store.home? = none := by
  cases store with
  | document => cases h
  | _ => rfl

theorem Disk.Opens.home?_eq {disk disk' : Disk} {path : Path} {collection : String} {store : Store}
    (h : disk.Opens path collection store disk') : store.home? = some (path.place, collection) := by
  obtain ⟨database, hfile, -⟩ := h.file
  have hcollection := h.collection
  cases store with
  | document =>
    cases hcollection
    cases hfile
    rfl
  | _ => cases hfile

/-- The place and the collection of a store that is to be opened, if it has a file. -/
def StoreKind.home? : StoreKind → Option (Place × String)
  | document file collection => some ((Path.ofText file).place, collection)
  | _ => none

namespace Session

variable {s s' : Session}

/-- The documents of an open store are those of its collection. -/
theorem Sound.documents_eq (h : s.Sound) {place : Place} {collection : String} {opened : Database}
    {documents : Documents} (hm : Store.document place collection opened documents ∈ s.openStores) :
    s.documents place collection = documents := by
  have hfile : (place, opened.setDocuments collection documents) ∈ s.files :=
    List.mem_filterMap.2 ⟨_, hm, rfl⟩
  refine (Disk.documentsWith_of_mem h.holds hfile collection).trans ?_
  rw [Database.documents_setDocuments, if_pos rfl]

private theorem openStores_eq {schedule : Schedule} (hs : s.schedule = some schedule) :
    s.openStores = schedule.cache.stores := by
  unfold openStores
  rw [hs]

/-- Caches with the same bindings over the same documents answer every read alike. -/
private theorem Sound.readAt_eq (h : s.Sound) (h' : s'.Sound) {schedule schedule' : Schedule}
    (hs : s.schedule = some schedule) (hs' : s'.schedule = some schedule')
    (hdocuments : ∀ place collection, s'.documents place collection = s.documents place collection)
    (hb : schedule'.cache.bindings = schedule.cache.bindings)
    (hall : ∀ binding ∈ schedule.cache.bindings, binding.2.isSome) (clock : Clock) (key : String) :
    ∃ answer, schedule.cache.readAt clock key = some answer ∧
      schedule'.cache.readAt clock key = some answer := by
  have hleads := Cache.leadsTo_eq hb key
  rcases schedule.cache.readAt_cases hall clock key with
    ⟨error, hlead, hread⟩ | ⟨stored, place, collection, opened, documents, hlead, hm, hread⟩ <;>
  rcases schedule'.cache.readAt_cases (hb ▸ hall) clock key with
    ⟨error', hlead', hread'⟩ | ⟨stored', place', collection', opened', documents', hlead', hm', hread'⟩ <;>
  rw [hlead, hlead'] at hleads <;> cases hleads
  case inl.inl => exact ⟨_, hread, hread'⟩
  case inr.inr =>
    rw [← openStores_eq hs] at hm
    rw [← openStores_eq hs'] at hm'
    have hsame := hdocuments place collection
    rw [h.documents_eq hm, h'.documents_eq hm'] at hsame
    subst hsame
    exact ⟨_, hread, hread'⟩

/-! ### Restarts with the same stores and mounts -/

/-- The open stores by name, with their places and collections. -/
def homes (s : Session) : List (String × Option (Place × String)) :=
  s.stores.map fun entry => (entry.1, entry.2.home?)

/-- One more store, in the place of one with its name. -/
def addHome (homes : List (String × Option (Place × String))) (setup : StoreSetup) :
    List (String × Option (Place × String)) :=
  homes.filter (fun home => home.1 ≠ setup.name) ++ [(setup.name, setup.kind.home?)]

private theorem homes_add (s : Session) (name : String) {kind : StoreKind} {store : Store}
    (h : store.home? = kind.home?) : (s.add name store).homes = addHome s.homes ⟨name, kind⟩ := by
  unfold homes addHome add
  rw [List.partition_eq_filter_filter]
  simp [List.filter_map, Function.comp_def, h]

private theorem homes_openStore {setup : StoreSetup} (h : (s.openStore setup).2 = none) :
    (s.openStore setup).1.homes = addHome s.homes setup := by
  obtain ⟨name, kind⟩ := setup
  cases kind with
  | memory => exact homes_add s name (Store.home?_of_file? (file?_kept (by decide) rfl name))
  | faulty faults => exact homes_add s name (Store.home?_of_file? (file?_kept (by decide) rfl name))
  | document file collection =>
    unfold Session.openStore at h ⊢
    dsimp only at h ⊢
    rcases s.disk.openStore_cases file collection with
      ⟨fault, hfault, -⟩ | ⟨prepared, store, hok, -, hopens⟩
    · generalize s.disk.openStore file collection = opened at hfault h
      obtain ⟨disk', outcome⟩ := opened
      cases hfault
      cases h
    · generalize s.disk.openStore file collection = opened at hok hopens h ⊢
      obtain ⟨disk', outcome⟩ := opened
      cases hok
      exact homes_add { s with paths := s.paths ++ [file], disk := disk' } name hopens.home?_eq

private theorem homes_openAll {setups : List StoreSetup} (h : (s.openAll setups).2 = none) :
    (s.openAll setups).1.homes = setups.foldl addHome s.homes := by
  induction setups generalizing s with
  | nil => rfl
  | cons setup rest ih =>
    unfold Session.openAll at h ⊢
    cases hfirst : s.openStore setup with
    | mk next outcome =>
      rw [hfirst] at h
      cases outcome with
      | some fault => cases h
      | none =>
        have hhomes : (s.openStore setup).1.homes = addHome s.homes setup := homes_openStore (by rw [hfirst])
        rw [hfirst] at hhomes
        rw [List.foldl_cons, ← hhomes]
        exact ih h

private theorem schedule_openAll (s : Session) (setups : List StoreSetup) :
    (s.openAll setups).1.schedule = s.schedule := by
  have hone (s : Session) (setup : StoreSetup) : (s.openStore setup).1.schedule = s.schedule := by
    unfold Session.openStore
    split
    next => rfl
    next => rfl
    next =>
      dsimp only
      split <;> rfl
  induction setups generalizing s with
  | nil => rfl
  | cons setup rest ih =>
    have hfirst := hone s setup
    unfold Session.openAll
    split
    next heq => rw [heq] at hfirst; exact hfirst
    next heq => rw [heq] at hfirst; exact (ih _).trans hfirst

/-- The bindings of a cache hang on the stores that were opened for it and on its mounts. -/
private theorem bindings_build {setup : Setup} {schedule : Schedule} (hnone : s.schedule = none)
    (hs : (s.build setup).1.schedule = some schedule) : ∃ mounts : MountTable Nat,
      MountTable.ofBindings (setup.mounts.filterMap fun mount =>
        ((setup.stores.foldl addHome s.homes).findIdx? fun home => home.1 = mount.2).map
          fun store => (mount.1, store)) =
          .ok mounts ∧
        schedule.cache.bindings = mounts.mounts.map fun mount =>
          (mount.1, (setup.stores.foldl addHome s.homes)[mount.2]?.bind (·.2)) := by
  have hopen := (schedule_openAll s setup.stores).trans hnone
  unfold Session.build at hs
  split at hs
  next heq =>
    rw [heq] at hopen
    cases hs.symm.trans hopen
  next s' heq =>
    rw [heq] at hopen
    have hhomes : (s.openAll setup.stores).1.homes = setup.stores.foldl addHome s.homes :=
      homes_openAll (by rw [heq])
    rw [heq] at hhomes
    split at hs
    next => cases hs.symm.trans hopen
    next mounts hmounts =>
      cases hs
      refine ⟨mounts, ?_, ?_⟩
      · rw [← hmounts, ← hhomes]
        simp [Session.bindings, homes, List.findIdx?_map, Function.comp_def]
      · rw [Cache.bindings_runs (sound_freshCache s' setup mounts).locks (Schedule.drifts_turn _ 0).runs,
          ← hhomes]
        refine List.map_congr_left fun mount _ => ?_
        simp only [freshCache, Cache.stores, storesOn, homes, List.getElem?_map]
        cases s'.stores[mount.2]? <;> rfl

/-- Two sessions that are restarted with the same stores and the same mounts have the same bindings. -/
theorem bindings_restart {setup setup' : Setup} {schedule schedule' : Schedule}
    (hstores : setup'.stores = setup.stores) (hmounts : setup'.mounts = setup.mounts)
    (hs : (s.restart setup).1.schedule = some schedule)
    (hs' : (s'.restart setup').1.schedule = some schedule') :
    schedule'.cache.bindings = schedule.cache.bindings := by
  obtain ⟨mounts, hok, hbindings⟩ := bindings_build (s := s.takeDown.closeAll) (schedule_takeDown s) hs
  obtain ⟨mounts', hok', hbindings'⟩ := bindings_build (s := s'.takeDown.closeAll) (schedule_takeDown s') hs'
  have hclosed (s : Session) : s.takeDown.closeAll.homes = [] := rfl
  rw [hclosed] at hok hbindings hok' hbindings'
  rw [hstores, hmounts] at hok'
  cases hok.symm.trans hok'
  rw [hbindings', hbindings, hstores]

/-- The session at the end of its cache. -/
private theorem Reached.last (h : s.Reached) {schedule : Schedule} (hs : s.schedule = some schedule) :
    ∃ (s' : Session) (ended : Schedule), s'.Sound ∧ s'.schedule = some ended ∧
      ended.cache = Session.last schedule ∧ schedule.cache.Runs ended.cache ∧
      ∀ place collection, s'.documents place collection = s.takeDown.documents place collection := by
  obtain ⟨hdisk, hfiles⟩ := h.sound.takeDown_some hs
  have hr := schedule.runs_call .shutdown .never
  unfold Session.last at hfiles ⊢
  generalize (schedule.call .shutdown .never).1 = ended at hfiles hr ⊢
  refine ⟨{ s with schedule := some ended }, ended, (h.runs hs hr s.counters).sound, rfl, rfl, hr,
    fun place collection => ?_⟩
  rw [documents, documents, files_of_closed (schedule_takeDown s), hdisk, hfiles]
  rfl

/-- Documents outlive the cache.  Closing, opening and building leave every document of every collection as
the end of the cache has left it, whatever comes of them, and the end of a cache without open calls changes
none.  So after any number of restarts, failed or not, a cache that has been built on the same files,
collections and mounts answers every read as the cache before answered it in the end. -/
theorem outlives_restarts (h : s.Reached) (setup : Setup) (setups : List Setup) :
    (∀ place collection,
      (s.restarts (setup :: setups)).documents place collection = s.takeDown.documents place collection ∧
      (s.Settled → s.takeDown.documents place collection = s.documents place collection)) ∧
    ∀ schedule ∈ s.schedule, ∀ schedule' ∈ (s.restarts (setup :: setups)).schedule,
      schedule'.cache.bindings = schedule.cache.bindings →
      (∀ binding ∈ schedule.cache.bindings, binding.2.isSome) →
      ∀ clock key, ∃ answer, schedule'.cache.readAt clock key = some answer ∧
        (Session.last schedule).readAt clock key = some answer ∧
        (s.Settled → schedule.cache.readAt clock key = some answer) := by
  obtain ⟨hsound, hdocuments⟩ := h.sound.restarts setup setups
  refine ⟨fun place collection =>
    ⟨hdocuments place collection, fun hs => h.sound.documents_takeDown hs place collection⟩, ?_⟩
  intro schedule hs schedule' hs' hb hall clock key
  -- The end of the cache is compared with both: with the restarts after it, and with the cache before it.
  obtain ⟨s₁, ended, hsound₁, hs₁, hlast, hr, hdocuments₁⟩ := h.last hs
  rw [← hlast]
  have hb₁ : ended.cache.bindings = schedule.cache.bindings :=
    Cache.bindings_runs (h.sound.cache schedule hs).1.locks hr
  obtain ⟨answer, hended, hread⟩ := hsound₁.readAt_eq hsound hs₁ hs'
    (fun place collection => (hdocuments place collection).trans (hdocuments₁ place collection).symm)
    (hb.trans hb₁.symm) (hb₁ ▸ hall) clock key
  refine ⟨answer, hread, hended, fun hsettled => ?_⟩
  obtain ⟨answer', hbefore, hended'⟩ := h.sound.readAt_eq hsound₁ hs hs₁
    (fun place collection =>
      (hdocuments₁ place collection).trans (h.sound.documents_takeDown hsettled place collection))
    hb₁ hall clock key
  rw [Option.some.inj (hended.symm.trans hended')]
  exact hbefore

/-! A name alone is a path that has to be followed by hand, for texts are not taken apart by evaluation. -/

private theorem ofText_d : Path.ofText "d" = { fromRoot := false, parts := ["d"] } := by cbv

private theorem prepare_d (disk : Disk) :
    disk.prepare { fromRoot := false, parts := ["d"] } = (disk, none) := rfl

private theorem fileAt_d (disk : Disk) : disk.fileAt { fromRoot := false, parts := ["d"] } =
    if !disk.hasFolder Disk.home then .error .notFolder
    else if disk.hasFolder (Disk.home ++ ["d"]) then .error .isFolder
    else if disk.isClosedTo Disk.home "d" then .error .missing
    else .ok (Disk.home ++ ["d"]) := by
  have hfault : Path.fault? { fromRoot := false, parts := ["d"] } = none := by cbv
  have hnames : Path.names { fromRoot := false, parts := ["d"] } = ["d"] := by decide +kernel
  have hlocate : disk.locate { fromRoot := false, parts := ["d"] } =
      if !disk.hasFolder Disk.home then .error .notFolder else .ok (Disk.home, some "d") := by
    unfold Disk.locate
    simp only [hfault, hnames]
    cases hhome : disk.hasFolder Disk.home <;>
      simp [Disk.start, hhome, bind, Except.bind, pure, Except.pure]
  unfold Disk.fileAt
  rw [hlocate]
  cases disk.hasFolder Disk.home <;> rfl

/-- A write and a hold that goes on, a restart that fails since another store has the file open, one that
fails since a path is no mount, and one that does not. -/
theorem outlives_restarts_busy : ∃ s : Session, s.Reached ∧ s.Settled ∧
    (s.restart { stores := [⟨"d", .document "d" "c"⟩, ⟨"e", .document "d" "x"⟩] }).2 = .unopened .locked ∧
    (s.restart { stores := [⟨"d", .document "d" "c"⟩], mounts := [("m/n", "d")] }).2 =
      .refused (.invalidMount "m/n") ∧
    ∃ schedule ∈ s.schedule, ∃ schedule' ∈ (s.restarts [
        { stores := [⟨"d", .document "d" "c"⟩, ⟨"e", .document "d" "x"⟩] },
        { stores := [⟨"d", .document "d" "c"⟩], mounts := [("m/n", "d")] },
        { stores := [⟨"d", .document "d" "c"⟩], mounts := [("m", "d")] }]).schedule,
      schedule'.cache.bindings = schedule.cache.bindings ∧
      (∀ binding ∈ schedule.cache.bindings, binding.2.isSome) ∧
      schedule.cache.readAt (.ofInstant default) "m/k" = some (.record (.fresh [7] default)) ∧
      schedule'.cache.readAt (.ofInstant default) "m/k" = some (.record (.fresh [7] default)) := by
  have hrun : ((({ now := default : Script }.firstSession.restart
        { stores := [⟨"d", .document "d" "c"⟩], mounts := [("m", "d")] }).1.actAll
          [.call (.write "m/k" [7] []) .never, .hold "d" 5]).any fun last =>
      decide last.1.Settled &&
      decide ((last.1.restart { stores := [⟨"d", .document "d" "c"⟩, ⟨"e", .document "d" "x"⟩] }).2 =
        .unopened .locked) &&
      decide ((last.1.restart { stores := [⟨"d", .document "d" "c"⟩], mounts := [("m/n", "d")] }).2 =
        .refused (.invalidMount "m/n")) &&
      last.1.schedule.any fun schedule => (last.1.restarts [
          { stores := [⟨"d", .document "d" "c"⟩, ⟨"e", .document "d" "x"⟩] },
          { stores := [⟨"d", .document "d" "c"⟩], mounts := [("m/n", "d")] },
          { stores := [⟨"d", .document "d" "c"⟩], mounts := [("m", "d")] }]).schedule.any fun schedule' =>
        decide (schedule'.cache.bindings = schedule.cache.bindings ∧
          (∀ binding ∈ schedule.cache.bindings, binding.2.isSome) ∧
          schedule.cache.readAt (.ofInstant default) "m/k" = some (.record (.fresh [7] default)))) =
              true := by
    simp only [Session.restarts, List.foldl, Session.restart, Session.build, Session.openAll,
      Session.openStore,
      Disk.openStore, ofText_d, prepare_d, fileAt_d]
    decide +kernel
  simp only [Option.any_eq_true, Bool.and_eq_true, decide_eq_true_eq, and_assoc] at hrun
  obtain ⟨last, hlast, hsettled, hlocked, hnested, schedule, hs, schedule', hs', hb, hall, hread⟩ := hrun
  have hreached := ((Reached.first { now := default }).restart _).actAll hlast
  obtain ⟨answer, hread', -, hbefore⟩ :=
    (outlives_restarts hreached _ _).2 schedule hs schedule' hs' hb hall (.ofInstant default) "m/k"
  refine ⟨last.1, hreached, hsettled, hlocked, hnested, schedule, hs, schedule', hs', hb, hall, hread, ?_⟩
  rw [hread', ← hbefore hsettled, hread]

end Session

end RoutedCache

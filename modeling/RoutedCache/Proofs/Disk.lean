import RoutedCache.Disk
import RoutedCache.Proofs.Store.Frame

/-!
# Documents on a disk

What matters of a disk with open stores is which documents are on it once the stores are closed
(`Disk.documentsWith`).  The folders above a file are made where nothing has been (`Disk.keeps_prepare`), a
store is opened with the documents that its file has, or not at all (`Disk.openStore_cases`), and closing it
brings them back (`Disk.sameDocuments_close`).  Where a path leads to, if it leads anywhere, hangs on its text
alone (`Disk.fileAt_eq_ok`).
-/

namespace RoutedCache

/-- The places of open files with the databases that they are to hold. -/
abbrev Files := List (Place × Database)

theorem Database.documents_setDocuments (database : Database) (collection : String) (documents : Documents)
    (name : String) : (database.setDocuments collection documents).documents name =
      if name = collection then documents else database.documents name := by
  unfold Database.documents Database.setDocuments
  rw [KeyMap.get?_insert]
  by_cases heq : name = collection
  · rw [if_pos heq, if_pos heq]
  · rw [if_neg heq, if_neg heq]

namespace Disk

/-- The documents of a collection in the file at a place. -/
def documents (disk : Disk) (place : Place) (collection : String) : Documents :=
  match disk.node? place with
  | some (.database database) => database.documents collection
  | _ => .empty

/-- The documents of a collection if some files are open: an open file has those of its store. -/
def documentsWith (disk : Disk) (files : Files) (place : Place) (collection : String) : Documents :=
  match files.lookup place with
  | some database => database.documents collection
  | none => disk.documents place collection

/-- The disks have the same documents and the same open files. -/
structure Keeps (disk disk' : Disk) : Prop where
  documents : ∀ place collection, disk'.documents place collection = disk.documents place collection
  opened : disk'.opened = disk.opened

/-- Every open file is marked as such, and no file is open twice. -/
structure Holds (disk : Disk) (files : Files) : Prop where
  nodup : (files.map (·.1)).Nodup
  opened : ∀ place ∈ files.map (·.1), place ∈ disk.opened
  below : ∀ place ∈ files.map (·.1), place ≠ []

/-- From one disk and its open files to others every collection keeps its documents. -/
structure SameDocuments (disk : Disk) (files : Files) (disk' : Disk) (files' : Files) : Prop where
  holds : disk'.Holds files'
  documents : ∀ place collection,
    disk'.documentsWith files' place collection = disk.documentsWith files place collection

variable {disk disk' disk'' : Disk} {files files' files'' : Files}

theorem SameDocuments.refl (h : disk.Holds files) : disk.SameDocuments files disk files := ⟨h, fun _ _ => rfl⟩

theorem SameDocuments.trans (h : disk.SameDocuments files disk' files')
    (h' : disk'.SameDocuments files' disk'' files'') : disk.SameDocuments files disk'' files'' where
  holds := h'.holds
  documents place collection := (h'.documents place collection).trans (h.documents place collection)

namespace Keeps

theorem refl (disk : Disk) : disk.Keeps disk := ⟨fun _ _ => rfl, rfl⟩

theorem trans (h : disk.Keeps disk') (h' : disk'.Keeps disk'') : disk.Keeps disk'' where
  documents place collection := (h'.documents place collection).trans (h.documents place collection)
  opened := h'.opened.trans h.opened

theorem sameDocuments (h : disk.Keeps disk') (hd : disk.Holds files) :
    disk.SameDocuments files disk' files where
  holds := ⟨hd.nodup, fun place hp => h.opened ▸ hd.opened place hp, hd.below⟩
  documents place collection := by
    unfold documentsWith
    split
    · rfl
    · exact h.documents place collection

end Keeps

/-! ### What is put on a disk -/

/-- Something put below the root is found at its place, and nothing else has changed. -/
theorem node?_put {place : Place} (hp : place ≠ []) (disk : Disk) (node : Node) (place' : Place) :
    (disk.put place node).node? place' = if place' = place then some node else disk.node? place' := by
  cases place' with
  | nil => rw [if_neg (Ne.symm hp)]; rfl
  | cons name rest =>
    show List.lookup (name :: rest) ((place, node) :: disk.nodes.filter fun entry => entry.1 ≠ place) = _
    rw [List.lookup_cons]
    split
    next heq => rw [if_pos (eq_of_beq heq)]
    next heq =>
      have hne : name :: rest ≠ place := beq_eq_false_iff_ne.1 heq
      rw [if_neg hne]
      exact (KeyMap.lookup_filter_ne disk.nodes).trans (if_neg hne)

theorem documents_put {place : Place} (hp : place ≠ []) (disk : Disk) (database : Database) (place' : Place)
    (collection : String) : (disk.put place (.database database)).documents place' collection =
      if place' = place then database.documents collection else disk.documents place' collection := by
  unfold documents
  rw [node?_put hp]
  by_cases heq : place' = place
  · rw [if_pos heq, if_pos heq]
  · rw [if_neg heq, if_neg heq]

/-- A folder made where nothing has been takes no document away. -/
theorem keeps_put_folder {place : Place} (hp : place ≠ []) (hnone : disk.node? place = none) :
    disk.Keeps (disk.put place .folder) where
  documents place' collection := by
    unfold documents
    rw [node?_put hp]
    by_cases heq : place' = place
    · rw [if_pos heq, heq, hnone]
    · rw [if_neg heq]
  opened := rfl

/-! ### The folders above a file -/

theorem keeps_makeFolder {path : Path} (h : disk.makeFolder path = .ok disk') : disk.Keeps disk' := by
  unfold makeFolder at h
  cases hl : disk.locate path with
  | error => rw [hl] at h; cases h
  | ok found =>
    obtain ⟨folder, _ | name⟩ := found
    · rw [hl] at h
      cases h
    · rw [hl] at h
      simp only [bind, Except.bind] at h
      split at h
      next => cases h
      next =>
        split at h
        next => cases h
        next hnone =>
          split at h
          next => cases h
          next =>
            cases h
            exact keeps_put_folder (by simp) (Decidable.not_not.1 hnone)

theorem keeps_ensureFolder (disk : Disk) (path : Path) : disk.Keeps (disk.ensureFolder path).1 := by
  unfold ensureFolder
  split
  next h => exact keeps_makeFolder h
  next => exact .refl disk

theorem keeps_ensureFolders (disk : Disk) (fromRoot : Bool) (parts : List String) :
    disk.Keeps (disk.ensureFolders fromRoot parts).1 := by
  induction parts generalizing disk with
  | nil => exact .refl disk
  | cons part above ih =>
    unfold ensureFolders
    split
    next => exact ih disk
    next =>
      have hfirst := keeps_ensureFolder disk { fromRoot, parts := (part :: above).reverse }
      dsimp only
      split
      next disk' heq =>
        -- A folder above is missing: those above are made first, and then this one is tried again.
        rw [heq] at hfirst
        have habove := hfirst.trans (ih disk')
        split
        next disk'' heq' =>
          rw [heq'] at habove
          exact habove.trans (keeps_ensureFolder ..)
        next failed _ => exact habove
      next => exact hfirst

/-- Making the folders above a file leaves all documents as they are, whatever comes of it. -/
theorem keeps_prepare (disk : Disk) (path : Path) : disk.Keeps (disk.prepare path).1 :=
  keeps_ensureFolders ..

end Disk

/-! ### Where a path leads to -/

/-- Where a name leads to from a folder. -/
def Path.walk (place : Place) (name : String) : Place :=
  if name = "." then place else if name = ".." then place.dropLast else place ++ [name]

/-- The place that a path stands for. -/
def Path.place (path : Path) : Place := path.names.foldl Path.walk (Disk.start path)

namespace Disk

variable {disk disk' : Disk} {files files' : Files}

theorem follow_eq_ok {place place' : Place} {name : String} (h : disk.follow place name = .ok place') :
    place' = Path.walk place name := by
  unfold follow at h
  unfold Path.walk
  split at h
  next => cases h
  next =>
    split at h
    next hdot => cases h; rw [if_pos hdot]
    next hdot =>
      rw [if_neg hdot]
      split at h
      next hdots => cases h; rw [if_pos hdots]
      next hdots =>
        rw [if_neg hdots]
        split at h
        next => cases h
        next =>
          split at h
          next => cases h
          next => cases h; rfl

theorem follow_all_eq_ok {names : List String} {place place' : Place}
    (h : names.foldlM disk.follow place = .ok place') : place' = names.foldl Path.walk place := by
  induction names generalizing place with
  | nil => cases h; rfl
  | cons name rest ih =>
    rw [List.foldlM_cons] at h
    cases hf : disk.follow place name with
    | error => rw [hf] at h; cases h
    | ok next =>
      rw [hf] at h
      rw [List.foldl_cons, ← follow_eq_ok hf]
      exact ih h

/-- The folder and the name that are found for a path make up its place. -/
theorem place_of_locate {path : Path} {folder : Place} {name : String}
    (h : disk.locate path = .ok (folder, some name)) : path.place = folder ++ [name] := by
  unfold locate at h
  split at h
  next => cases h
  next =>
    split at h
    next =>
      split at h <;> cases h
    next last hlast =>
      cases hf : path.names.dropLast.foldlM disk.follow (start path) with
      | error => rw [hf] at h; cases h
      | ok folder' =>
        rw [hf] at h
        simp only [bind, Except.bind] at h
        split at h
        next => cases h
        next =>
          split at h
          next => cases h
          next hdots =>
            cases h
            obtain ⟨hdot, hdots⟩ := not_or.1 hdots
            obtain ⟨above, hnames⟩ := List.getLast?_eq_some_iff.1 hlast
            rw [hnames, List.dropLast_concat] at hf
            rw [Path.place, hnames, List.foldl_append, ← follow_all_eq_ok hf]
            simp [Path.walk, hdot, hdots]

/-- A path that leads to a file leads to its place, which is below the root. -/
theorem fileAt_eq_ok {path : Path} {place : Place} (h : disk.fileAt path = .ok place) :
    place = path.place ∧ place ≠ [] := by
  unfold fileAt at h
  cases hl : disk.locate path with
  | error => rw [hl] at h; cases h
  | ok found =>
    obtain ⟨folder, _ | name⟩ := found
    · rw [hl] at h
      cases h
    · rw [hl] at h
      simp only [bind, Except.bind] at h
      have hplace : place = folder ++ [name] := by
        repeat' split at h
        all_goals cases h
        rfl
      exact ⟨hplace.trans (place_of_locate hl).symm, by simp [hplace]⟩

/-! ### Opening and closing a store -/

/-- A store that has been opened: its file was closed before, and it has the documents of its file. -/
structure Opens (disk : Disk) (path : Path) (collection : String) (store : Store) (disk' : Disk) : Prop where
  file : ∃ database, store.file? = some (path.place, database) ∧
    ∀ name, database.documents name = disk.documents path.place name
  collection : store.collection? = some collection
  closed : path.place ∉ disk.opened
  below : path.place ≠ []
  elsewhere : ∀ place, place ≠ path.place → ∀ name, disk'.documents place name = disk.documents place name
  opened : disk'.opened = path.place :: disk.opened

private theorem documents_of_database {place : Place} {database : Database}
    (h : disk.database place = .ok database) (name : String) :
    disk.documents place name = database.documents name := by
  unfold Disk.database at h
  unfold documents
  split at h
  next hnone => cases h; rw [hnone]; rfl
  next hempty => cases h; rw [hempty]; rfl
  next => cases h
  next hdatabase => cases h; rw [hdatabase]
  next => cases h
  next => cases h
  next => cases h

theorem opens_openAt {path : Path} {collection : String} {store : Store} (hp : path.place ≠ [])
    (h : disk.openAt path.place collection = .ok (store, disk')) :
    disk.Opens path collection store disk' := by
  unfold openAt at h
  split at h
  next => cases h
  next hclosed =>
    cases hd : disk.database path.place with
    | error => rw [hd] at h; cases h
    | ok database =>
      rw [hd] at h
      simp only [bind, Except.bind] at h
      have hdocuments (name : String) :
          (database.setDocuments collection (database.documents collection)).documents name =
            database.documents name := by
        rw [Database.documents_setDocuments]
        split
        next heq => rw [heq]
        next => rfl
      split at h
      next => cases h
      next =>
        split at h
        next => cases h
        next =>
          cases h
          exact {
            file := ⟨_, rfl, fun name => (hdocuments name).trans (documents_of_database hd name).symm⟩
            collection := rfl
            closed := by simpa using hclosed
            below := hp
            elsewhere := fun place hne name => (documents_put hp ..).trans (if_neg hne)
            opened := rfl }

/-- A store is opened or it is not; either way the disk keeps its documents. -/
theorem openStore_cases (disk : Disk) (file collection : String) :
    (∃ fault, (disk.openStore file collection).2 = .error fault ∧
      disk.Keeps (disk.openStore file collection).1) ∨
    ∃ prepared store, (disk.openStore file collection).2 = .ok store ∧ disk.Keeps prepared ∧
      prepared.Opens (.ofText file) collection store (disk.openStore file collection).1 := by
  have hprepare := keeps_prepare disk (.ofText file)
  unfold openStore
  dsimp only
  split
  next prepared fault heq => rw [heq] at hprepare; exact .inl ⟨_, rfl, hprepare⟩
  next prepared heq =>
    rw [heq] at hprepare
    split
    next => exact .inl ⟨_, rfl, hprepare⟩
    next place hplace =>
      obtain ⟨rfl, hbelow⟩ := fileAt_eq_ok hplace
      split
      next => exact .inl ⟨_, rfl, hprepare⟩
      next store opened hopen => exact .inr ⟨prepared, store, rfl, hprepare, opens_openAt hbelow hopen⟩

/-- The disk with the database of a file brought back to it. -/
def closeFile (disk : Disk) (file : Place × Database) : Disk :=
  { disk.put file.1 (.database file.2) with opened := disk.opened.filter (· ≠ file.1) }

theorem closeStore_all (disk : Disk) (stores : List Store) :
    stores.foldl closeStore disk = (stores.filterMap Store.file?).foldl closeFile disk := by
  induction stores generalizing disk with
  | nil => rfl
  | cons store rest ih =>
    cases store with
    | document => exact ih _
    | _ => exact ih disk

private theorem lookup_iff_mem (h : (files.map (·.1)).Nodup) {place : Place} {database : Database} :
    files.lookup place = some database ↔ (place, database) ∈ files := by
  induction files with
  | nil => simp
  | cons file rest ih =>
    obtain ⟨place', database'⟩ := file
    obtain ⟨hnot, hrest⟩ := List.nodup_cons.1 h
    rw [List.lookup_cons]
    split
    next heq =>
      obtain rfl := eq_of_beq heq
      have hnot' : (place, database) ∉ rest := fun hm => hnot (List.mem_map.2 ⟨_, hm, rfl⟩)
      simp [hnot', eq_comm]
    next heq =>
      rw [ih hrest]
      simp [beq_eq_false_iff_ne.1 heq]

theorem documentsWith_of_mem (h : disk.Holds files) {file : Place × Database} (hm : file ∈ files)
    (collection : String) : disk.documentsWith files file.1 collection = file.2.documents collection := by
  unfold documentsWith
  rw [(lookup_iff_mem h.nodup).2 hm]

theorem documentsWith_of_closed {place : Place} (h : place ∉ files.map (·.1)) (collection : String) :
    disk.documentsWith files place collection = disk.documents place collection := by
  have hnone : files.lookup place = none :=
    List.lookup_eq_none_iff.2 fun file hm => bne_iff_ne.2 fun heq => h (List.mem_map.2 ⟨file, hm, heq.symm⟩)
  unfold documentsWith
  rw [hnone]

theorem Holds.perm (h : disk.Holds files) (hp : files.Perm files') : disk.Holds files' where
  nodup := (hp.map _).nodup_iff.1 h.nodup
  opened place hm := h.opened place ((hp.map _).mem_iff.2 hm)
  below place hm := h.below place ((hp.map _).mem_iff.2 hm)

theorem Holds.of_places (h : disk.Holds files) (hp : files'.map (·.1) = files.map (·.1)) :
    disk.Holds files' :=
  ⟨hp ▸ h.nodup, hp ▸ h.opened, hp ▸ h.below⟩

/-- The order of the open files does not matter. -/
theorem SameDocuments.perm (h : disk.SameDocuments files disk' files') (hp : files'.Perm files'') :
    disk.SameDocuments files disk' files'' := by
  -- No file is open twice, so a look-up finds a file wherever it stands in the list.
  refine h.trans ⟨h.holds.perm hp, fun place collection => ?_⟩
  have hlookup : files''.lookup place = files'.lookup place := Option.ext fun database => by
    rw [lookup_iff_mem (h.holds.perm hp).nodup, lookup_iff_mem h.holds.nodup, hp.mem_iff]
  unfold documentsWith
  rw [hlookup]

private theorem sameDocuments_closeFile {file : Place × Database} (h : disk.Holds (file :: files)) :
    disk.SameDocuments (file :: files) (disk.closeFile file) files := by
  obtain ⟨hnot, hrest⟩ := List.nodup_cons.1 h.nodup
  have hbelow := h.below file.1 (List.mem_cons_self ..)
  constructor
  · refine ⟨hrest, fun place hm => ?_, fun place hm => h.below place (List.mem_cons_of_mem _ hm)⟩
    have hne : place ≠ file.1 := by
      rintro rfl
      exact hnot hm
    exact List.mem_filter.2 ⟨h.opened place (List.mem_cons_of_mem _ hm), by simpa using hne⟩
  · intro place collection
    by_cases hopen : place ∈ files.map (·.1)
    · obtain ⟨file', hm, rfl⟩ := List.mem_map.1 hopen
      rw [documentsWith_of_mem h (List.mem_cons_of_mem _ hm)]
      unfold documentsWith
      rw [(lookup_iff_mem hrest).2 hm]
    · rw [documentsWith_of_closed hopen]
      refine (documents_put hbelow disk file.2 place collection).trans ?_
      split
      next heq =>
        subst heq
        rw [documentsWith_of_mem h (List.mem_cons_self ..)]
      next hne =>
        have hclosed : place ∉ (file :: files).map (·.1) := by
          rw [List.map_cons, List.mem_cons]
          exact not_or.2 ⟨hne, hopen⟩
        rw [documentsWith_of_closed hclosed]

/-- Closing some of the open files brings the documents of each back to it and leaves the other files
alone. -/
theorem sameDocuments_close {closing : Files} (h : disk.Holds (closing ++ files)) :
    disk.SameDocuments (closing ++ files) (closing.foldl closeFile disk) files := by
  induction closing generalizing disk with
  | nil => exact .refl h
  | cons file rest ih =>
    have hfirst := sameDocuments_closeFile h
    exact hfirst.trans (ih hfirst.holds)

/-- A store that has been opened is one more open file, and it has the documents that the file had. -/
theorem Opens.sameDocuments {path : Path} {collection : String} {store : Store}
    (ho : disk.Opens path collection store disk') (h : disk.Holds files) :
    disk.SameDocuments files disk' (store.file?.toList ++ files) := by
  obtain ⟨database, hfile, hdocuments⟩ := ho.file
  have hclosed : path.place ∉ files.map (·.1) := fun hm => ho.closed (h.opened _ hm)
  have hall : disk'.Holds (store.file?.toList ++ files) := by
    rw [hfile]
    refine ⟨List.nodup_cons.2 ⟨hclosed, h.nodup⟩, fun place hm => ?_, fun place hm => ?_⟩
    · rw [ho.opened]
      exact (List.mem_cons.1 hm).elim (fun heq => heq ▸ List.mem_cons_self ..)
        fun hm => List.mem_cons_of_mem _ (h.opened place hm)
    · exact (List.mem_cons.1 hm).elim (fun heq => heq ▸ ho.below) (h.below place)
  refine ⟨hall, fun place name => ?_⟩
  rw [hfile] at hall ⊢
  by_cases heq : place = path.place
  · subst heq
    rw [documentsWith_of_mem hall (List.mem_cons_self ..), documentsWith_of_closed hclosed, hdocuments]
  · by_cases hopen : place ∈ files.map (·.1)
    · obtain ⟨file, hm, rfl⟩ := List.mem_map.1 hopen
      rw [documentsWith_of_mem hall (List.mem_cons_of_mem _ hm), documentsWith_of_mem h hm]
    · have hstill : place ∉ ((some (path.place, database)).toList ++ files).map (·.1) := by
        simpa [heq] using hopen
      rw [documentsWith_of_closed hstill, documentsWith_of_closed hopen, ho.elsewhere place heq]

end Disk

end RoutedCache

import RoutedCache.Proofs.Store.Cells

/-!
# What a call leaves alone

A put, a look-up or a deletion is about one key, and the store after it differs from the store before it in
the entry of that key at most (`Store.sameBut_perform`): every other entry is the same, and in the database of
a document store so is every other collection.
-/

namespace RoutedCache

/-- The key that a call is about. -/
def StoreCall.key? : StoreCall → Option String
  | put entry => some entry.key
  | get key => some key
  | list _ => none
  | delete key => some key

/-- A faulty store widens listings alone. -/
theorem Faults.widen_of_key {call : StoreCall} {key : String} (hk : call.key? = some key) (faults : Faults) :
    faults.widen call = call := by
  cases call with
  | list => cases hk
  | _ => rfl

namespace Store

def collection? : Store → Option String
  | document _ collection _ _ => some collection
  | _ => none

/-- The place of a document store and the database there, with the documents that its collection has now. -/
def file? : Store → Option (Place × Database)
  | document file collection opened documents => some (file, opened.setDocuments collection documents)
  | _ => none

/-- The stores are of one kind and differ in the entry of the key at most. -/
structure SameBut (key : String) (store store' : Store) : Prop where
  kind : store'.kind = store.kind
  cells : ∀ key', key' ≠ key → store'.cell? key' = store.cell? key'
  collection : store'.collection? = store.collection?
  place : store'.file?.map (·.1) = store.file?.map (·.1)
  file : ∀ place place' database database', store.file? = some (place, database) →
    store'.file? = some (place', database') → ∀ name,
      (store.collection? ≠ some name → database'.get? name = database.get? name) ∧
      ∀ key', key' ≠ key → (database'.documents name).get? key' = (database.documents name).get? key'

namespace SameBut

variable {key : String} {store store' store'' : Store}

theorem refl (key : String) (store : Store) : store.SameBut key store where
  kind := rfl
  cells _ _ := rfl
  collection := rfl
  place := rfl
  file place place' database database' hfile hfile' name := by
    rw [hfile] at hfile'
    cases hfile'
    exact ⟨fun _ => rfl, fun _ _ => rfl⟩

theorem trans (h : store.SameBut key store') (h' : store'.SameBut key store'') :
    store.SameBut key store'' where
  kind := h'.kind.trans h.kind
  cells key' hne := (h'.cells key' hne).trans (h.cells key' hne)
  collection := h'.collection.trans h.collection
  place := h'.place.trans h.place
  file place place'' database database'' hfile hfile'' name := by
    have hmiddle := h.place
    rw [hfile] at hmiddle
    obtain ⟨⟨place', database'⟩, hfile', -⟩ := Option.map_eq_some_iff.1 hmiddle
    have hfirst := h.file _ _ _ _ hfile hfile' name
    have hsecond := h'.file _ _ _ _ hfile' hfile'' name
    constructor
    · intro hname
      exact (hsecond.1 (by rw [h.collection]; exact hname)).trans (hfirst.1 hname)
    · intro key' hne
      exact (hsecond.2 key' hne).trans (hfirst.2 key' hne)

theorem memory {entries entries' : KeyMap Record}
    (h : ∀ key', key' ≠ key → entries'.get? key' = entries.get? key') :
    (Store.memory entries).SameBut key (.memory entries') where
  kind := rfl
  cells key' hne := congrArg (Option.map Cell.value) (h key' hne)
  collection := rfl
  place := rfl
  file _ _ _ _ hfile := nomatch hfile

theorem faulty (faults : Faults) {entries entries' : KeyMap Record}
    (h : ∀ key', key' ≠ key → entries'.get? key' = entries.get? key') :
    (Store.faulty faults entries).SameBut key (.faulty faults entries') where
  kind := rfl
  cells key' hne := congrArg (Option.map Cell.value) (h key' hne)
  collection := rfl
  place := rfl
  file _ _ _ _ hfile := nomatch hfile

theorem document (file : Place) (collection : String) (opened : Database) {documents documents' : Documents}
    (h : ∀ key', key' ≠ key → documents'.get? key' = documents.get? key') :
    (Store.document file collection opened documents).SameBut key
      (.document file collection opened documents') where
  kind := rfl
  cells key' hne := congrArg (Option.map Cell.text) (h key' hne)
  collection := rfl
  place := rfl
  file place place' database database' hfile hfile' name := by
    cases hfile
    cases hfile'
    have hget (documents : Documents) : (opened.setDocuments collection documents).get? name =
        if name = collection then some (.documents documents) else opened.get? name := KeyMap.get?_insert ..
    constructor
    · intro hname
      have hname : name ≠ collection := fun heq => hname (congrArg some heq.symm)
      rw [hget, hget, if_neg hname, if_neg hname]
    · intro key' hne
      simp only [Database.documents, hget]
      by_cases hname : name = collection
      · rw [if_pos hname, if_pos hname]
        exact h key' hne
      · rw [if_neg hname, if_neg hname]

end SameBut

private theorem get?_performEntries (entries : KeyMap Record) {call : StoreCall} {key key' : String}
    (hc : call.key? = some key) (hne : key' ≠ key) :
    (performEntries entries call).2.get? key' = entries.get? key' := by
  cases call with
  | put entry =>
    cases hc
    exact (KeyMap.get?_insert ..).trans (if_neg hne)
  | get => rfl
  | list => cases hc
  | delete =>
    cases hc
    exact (KeyMap.get?_erase ..).trans (if_neg hne)

private theorem get?_performDocuments (documents : Documents) {call : StoreCall} {key key' : String}
    (hc : call.key? = some key) (hne : key' ≠ key) :
    (performDocuments documents call).2.get? key' = documents.get? key' := by
  cases call with
  | put entry =>
    cases hc
    exact (KeyMap.get?_insert ..).trans (if_neg hne)
  | get =>
    unfold performDocuments
    dsimp only
    split <;> rfl
  | list => cases hc
  | delete =>
    cases hc
    exact (KeyMap.get?_erase ..).trans (if_neg hne)

/-- A call to a store leaves all entries alone but that of its key. -/
theorem sameBut_perform (store : Store) {call : StoreCall} {key : String} (hc : call.key? = some key) :
    store.SameBut key (store.perform call).2 := by
  cases store with
  | memory entries => exact .memory fun key' hne => get?_performEntries entries hc hne
  | document file collection opened documents =>
    exact .document file collection opened fun key' hne => get?_performDocuments documents hc hne
  | faulty faults entries =>
    simp only [perform]
    split
    next => exact .refl key _
    next =>
      rw [faults.widen_of_key hc]
      exact .faulty faults fun key' hne => get?_performEntries entries hc hne

private theorem map_get?_erase {α : Type} (f : α → Cell) (entries : KeyMap α) (key key' : String) :
    ((entries.erase key).get? key').map f = if key' = key then none else (entries.get? key').map f := by
  rw [KeyMap.get?_erase]
  split <;> rfl

/-- A deletion takes the cell of its key, or it fails and changes nothing. -/
theorem perform_delete (store : Store) (key : String) :
    ((store.perform (.delete key)).1 = .done ∧
      ∀ key', (store.perform (.delete key)).2.cell? key' = if key' = key then none else store.cell? key') ∨
    ∃ fault, store.perform (.delete key) = (.failed fault, store) := by
  cases store with
  | memory entries => exact .inl ⟨rfl, map_get?_erase _ entries key⟩
  | document _ _ _ documents => exact .inl ⟨rfl, map_get?_erase _ documents key⟩
  | faulty faults entries =>
    simp only [perform]
    split
    next fault _ => exact .inr ⟨fault, rfl⟩
    next => exact .inl ⟨rfl, map_get?_erase _ entries key⟩

/-- A listing is not an acknowledgement. -/
theorem perform_list_ne_done (store : Store) (path : String) : (store.perform (.list path)).1 ≠ .done := by
  cases store with
  | memory =>
    intro h
    cases h
  | document =>
    intro h
    cases h
  | faulty faults entries =>
    simp only [perform]
    intro h
    split at h <;> cases h

/-- The store without what it keeps. -/
def bare : Store → Store
  | memory _ => memory .empty
  | document file collection opened _ => document file collection opened .empty
  | faulty faults _ => faulty faults .empty

/-- A call changes nothing of a store but what it keeps. -/
@[simp] theorem bare_perform (store : Store) (call : StoreCall) :
    (store.perform call).2.bare = store.bare := by
  cases store with
  | memory => rfl
  | document => rfl
  | faulty faults entries =>
    simp only [perform]
    split <;> rfl

/-- Where the file of a store is hangs on what it is, not on what it keeps. -/
theorem file?_bare (store : Store) : store.bare.file?.map (·.1) = store.file?.map (·.1) := by
  cases store <;> rfl

end Store

end RoutedCache

import RoutedCache.Proofs.Store.Frame

/-!
# What a store holds

An entry that a store holds after a call was there before, or the call has put it (`Store.cell?_perform`).  What was
put is shown by every listing that reaches its key (`Store.list_shows`), be it kept in memory or as a document.

A call about one key hangs on the entry of this key alone (`Store.perform_local`), and not even on this one if it is
acknowledged (`Store.perform_without`).  A store is known by its entries and by what it is without them
(`Store.ext_cells`).
-/

namespace RoutedCache.Store

variable {store : Store} {call : StoreCall} {key : String}

@[simp] theorem cellOf_perform (store : Store) (call : StoreCall) (entry : KeyRecord) :
    (store.perform call).2.cellOf entry = store.cellOf entry := by
  cases store with
  | memory => rfl
  | document => rfl
  | faulty faults entries =>
    simp only [perform]
    split <;> rfl

private theorem get?_performEntries_eq_some {entries : KeyMap Record} {record : Record}
    (h : (performEntries entries call).2.get? key = some record) : entries.get? key = some record ∨
      ∃ entry, call = .put entry ∧ entry.key = key ∧ entry.record = record := by
  cases call with
  | put entry =>
    simp only [performEntries, KeyMap.get?_insert] at h
    split at h
    next hkey => exact .inr ⟨entry, rfl, hkey.symm, Option.some.inj h⟩
    next => exact .inl h
  | get => exact .inl h
  | list => exact .inl h
  | delete =>
    simp only [performEntries, KeyMap.get?_erase] at h
    split at h
    next => cases h
    next => exact .inl h

private theorem get?_performDocuments_eq_some {documents : Documents} {text : Bytes}
    (h : (performDocuments documents call).2.get? key = some text) : documents.get? key = some text ∨
      ∃ entry, call = .put entry ∧ entry.key = key ∧ entry.encode = text := by
  cases call with
  | put entry =>
    simp only [performDocuments, Documents.put, KeyMap.get?_insert] at h
    split at h
    next hkey => exact .inr ⟨entry, rfl, hkey.symm, Option.some.inj h⟩
    next => exact .inl h
  | get =>
    simp only [performDocuments] at h
    split at h <;> exact .inl h
  | list => exact .inl h
  | delete =>
    simp only [performDocuments, KeyMap.get?_erase] at h
    split at h
    next => cases h
    next => exact .inl h

/-- A call brings nothing into a store but what it puts. -/
theorem cell?_perform {cell : Cell} (h : (store.perform call).2.cell? key = some cell) :
    store.cell? key = some cell ∨ ∃ entry, call = .put entry ∧ entry.key = key ∧ cell = store.cellOf entry := by
  cases store with
  | memory entries =>
    obtain ⟨record, hget, rfl⟩ := Option.map_eq_some_iff.1 h
    rcases get?_performEntries_eq_some hget with hold | ⟨entry, rfl, rfl, rfl⟩
    · exact .inl (by rw [cell?, hold, Option.map_some])
    · exact .inr ⟨entry, rfl, rfl, rfl⟩
  | document file collection opened documents =>
    obtain ⟨text, hget, rfl⟩ := Option.map_eq_some_iff.1 h
    rcases get?_performDocuments_eq_some hget with hold | ⟨entry, rfl, rfl, rfl⟩
    · exact .inl (by rw [cell?, hold, Option.map_some])
    · exact .inr ⟨entry, rfl, rfl, rfl⟩
  | faulty faults entries =>
    simp only [perform] at h
    split at h
    next => exact .inl h
    next =>
      obtain ⟨record, hget, rfl⟩ := Option.map_eq_some_iff.1 h
      rcases get?_performEntries_eq_some hget with hold | ⟨entry, hcall, rfl, rfl⟩
      · exact .inl (by rw [cell?, hold, Option.map_some])
      · -- A faulty store widens listings, and a listing puts nothing.
        cases call with
        | put => exact .inr ⟨entry, hcall, rfl, rfl⟩
        | _ => cases hcall

/-- A listing shows what was put under a key that it reaches, unless the store refuses all listings. -/
theorem list_shows {record : Record} {start : String} (hc : store.cell? key = some (store.cellOf ⟨key, record⟩))
    (hs : startsWith start key = true) :
    (∃ entries, store.perform (.list start) = (.listed entries, store) ∧ ⟨key, record⟩ ∈ entries) ∨
      ∃ faults entries, store = faulty faults entries ∧ faults.refuseList = true := by
  have hvalue {entries : KeyMap Record} (hget : entries.get? key = some record) (start : String)
      (hs : startsWith start key = true) : (⟨key, record⟩ : KeyRecord) ∈
        (entries.toList.filter fun e => startsWith start e.1).map fun e => ⟨e.1, e.2⟩ :=
    List.mem_map.2 ⟨(key, record), List.mem_filter.2 ⟨KeyMap.mem_toList_iff.2 hget, hs⟩, rfl⟩
  cases store with
  | memory entries =>
    obtain ⟨record', hget, heq⟩ := Option.map_eq_some_iff.1 hc
    cases heq
    exact .inl ⟨_, rfl, hvalue hget start hs⟩
  | document file collection opened documents =>
    obtain ⟨text, hget, heq⟩ := Option.map_eq_some_iff.1 hc
    cases heq
    refine .inl ⟨_, rfl, ?_⟩
    rw [Documents.list, List.mem_filterMap]
    refine ⟨(key, _), ?_, KeyRecord.decode?_encode ⟨key, record⟩⟩
    rw [Documents.run_eq, List.mem_filter]
    exact ⟨KeyMap.mem_toList_iff.2 hget, hs⟩
  | faulty faults entries =>
    obtain ⟨record', hget, heq⟩ := Option.map_eq_some_iff.1 hc
    cases heq
    by_cases hrefused : faults.refuseList = true
    · exact .inr ⟨faults, entries, rfl, hrefused⟩
    · refine .inl ⟨_, ?_, hvalue hget (if faults.listAll then "" else start) ?_⟩
      · simp only [perform, Faults.refusal?, if_neg hrefused, Faults.widen, performEntries]
      · split
        next => exact List.isPrefixOf_iff_prefix.2 List.nil_prefix
        next => exact hs

/-! ### What a call hangs on -/

private theorem performEntries_local {entries entries' : KeyMap Record} (hk : call.key? = some key)
    (hc : entries'.get? key = entries.get? key) :
    (performEntries entries' call).1 = (performEntries entries call).1 ∧
      (performEntries entries' call).2.get? key = (performEntries entries call).2.get? key := by
  cases call with
  | put entry =>
    cases hk
    exact ⟨rfl, by simp [performEntries]⟩
  | get =>
    cases hk
    exact ⟨by simp [performEntries, hc], hc⟩
  | list => cases hk
  | delete =>
    cases hk
    exact ⟨rfl, by simp [performEntries]⟩

private theorem performDocuments_local {documents documents' : Documents} (hk : call.key? = some key)
    (hc : documents'.get? key = documents.get? key) :
    (performDocuments documents' call).1 = (performDocuments documents call).1 ∧
      (performDocuments documents' call).2.get? key = (performDocuments documents call).2.get? key := by
  cases call with
  | put entry =>
    cases hk
    exact ⟨rfl, by simp [performDocuments, Documents.put]⟩
  | get =>
    cases hk
    have hfind : documents'.find? key = documents.find? key := by simp only [Documents.find?, hc]
    simp only [performDocuments, hfind]
    split <;> exact ⟨rfl, hc⟩
  | list => cases hk
  | delete =>
    cases hk
    exact ⟨rfl, by simp [performDocuments]⟩

private theorem get?_of_map {α : Type} {f : α → Cell} (hf : Function.Injective f) {entries entries' : KeyMap α}
    (h : (entries'.get? key).map f = (entries.get? key).map f) : entries'.get? key = entries.get? key :=
  Option.map_injective hf h

private theorem value_injective : Function.Injective Cell.value := fun _ _ h => Cell.value.inj h

private theorem text_injective : Function.Injective Cell.text := fun _ _ h => Cell.text.inj h

variable {store' : Store}

/-- The reply to a call about a key and the entry of the key after it hang on the entry of the key before it. -/
theorem perform_local (hb : store'.bare = store.bare) (hk : call.key? = some key)
    (hc : store'.cell? key = store.cell? key) :
    (store'.perform call).1 = (store.perform call).1 ∧
      (store'.perform call).2.cell? key = (store.perform call).2.cell? key := by
  cases store with
  | memory entries =>
    cases store' with
    | memory entries' =>
      obtain ⟨hreply, hcell⟩ := performEntries_local hk (get?_of_map value_injective hc)
      exact ⟨hreply, congrArg (Option.map Cell.value) hcell⟩
    | _ => cases hb
  | document file collection opened documents =>
    cases store' with
    | document file' collection' opened' documents' =>
      obtain ⟨hreply, hcell⟩ := performDocuments_local hk (get?_of_map text_injective hc)
      exact ⟨hreply, congrArg (Option.map Cell.text) hcell⟩
    | _ => cases hb
  | faulty faults entries =>
    cases store' with
    | faulty faults' entries' =>
      cases hb
      obtain ⟨hreply, hcell⟩ := performEntries_local hk (get?_of_map value_injective hc)
      simp only [perform, faults.widen_of_key hk]
      split
      next => exact ⟨rfl, hc⟩
      next => exact ⟨hreply, congrArg (Option.map Cell.value) hcell⟩
    | _ => cases hb

/-- Stores that are the same but for their entries and have the same entries are the same. -/
theorem ext_cells (hb : store'.bare = store.bare) (hc : ∀ key, store'.cell? key = store.cell? key) :
    store' = store := by
  cases store with
  | memory entries =>
    cases store' with
    | memory entries' => rw [KeyMap.ext_get? fun key => get?_of_map value_injective (hc key)]
    | _ => cases hb
  | document file collection opened documents =>
    cases store' with
    | document file' collection' opened' documents' =>
      cases hb
      rw [KeyMap.ext_get? fun key => get?_of_map text_injective (hc key)]
    | _ => cases hb
  | faulty faults entries =>
    cases store' with
    | faulty faults' entries' =>
      cases hb
      rw [KeyMap.ext_get? fun key => get?_of_map value_injective (hc key)]
    | _ => cases hb

/-! ### A store without an entry -/

/-- The store without the entry of a key. -/
def without : Store → String → Store
  | memory entries, key => memory (entries.erase key)
  | document file collection opened documents, key => document file collection opened (documents.erase key)
  | faulty faults entries, key => faulty faults (entries.erase key)

private theorem performEntries_erase {entries : KeyMap Record} (hk : call.key? = some key)
    (hd : (performEntries entries call).1 = .done) :
    performEntries (entries.erase key) call = performEntries entries call := by
  cases call with
  | put entry =>
    cases hk
    exact congrArg (Prod.mk _) (entries.insert_erase entry.key entry.record)
  | get => cases hd
  | list => cases hd
  | delete =>
    cases hk
    exact congrArg (Prod.mk _) (entries.erase_erase key)

private theorem performDocuments_erase {documents : Documents} (hk : call.key? = some key)
    (hd : (performDocuments documents call).1 = .done) :
    performDocuments (documents.erase key) call = performDocuments documents call := by
  cases call with
  | put entry =>
    cases hk
    exact congrArg (Prod.mk _) (documents.insert_erase entry.key entry.encode)
  | get =>
    simp only [performDocuments] at hd
    split at hd <;> cases hd
  | list => cases hd
  | delete =>
    cases hk
    exact congrArg (Prod.mk _) (documents.erase_erase key)

/-- A call about a key that is acknowledged comes to the same as if there had been nothing under the key. -/
theorem perform_without (hk : call.key? = some key) (hd : (store.perform call).1 = .done) :
    (store.without key).perform call = store.perform call := by
  cases store with
  | memory entries =>
    have hsame := performEntries_erase hk hd
    simp only [without, perform, hsame]
  | document file collection opened documents =>
    have hsame := performDocuments_erase hk hd
    simp only [without, perform, hsame]
  | faulty faults entries =>
    simp only [without, perform, faults.widen_of_key hk] at hd ⊢
    split
    next hrefused =>
      rw [hrefused] at hd
      cases hd
    next hserved =>
      rw [hserved] at hd
      rw [performEntries_erase hk hd]

end RoutedCache.Store

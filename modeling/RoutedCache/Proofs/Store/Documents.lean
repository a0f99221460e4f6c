import RoutedCache.Proofs.Document
import RoutedCache.Proofs.KeyMap
import RoutedCache.Store

/-!
# Documents as records

`Documents.records` is what a collection holds once its documents are read.  A collection is honest if every
document that can be read names the key it is stored under, and faithful if every document can be read as well.
The calls on a faithful collection are the calls on its records (`performDocuments_records`); all calls keep it
faithful, and all calls keep an honest collection honest.  A record that is put is found again as it was, by a
look-up and by every listing that reaches its key (`Store.document_reads_back`), whatever else is in the collection.
-/

namespace RoutedCache

namespace Documents

/-- The record of a document. -/
def record? (document : Bytes) : Option Record := (KeyRecord.decode? document).map (·.record)

def records (documents : Documents) : KeyMap Record := documents.collect record?

/-- Every document that can be read names its own key. -/
def Honest (documents : Documents) : Prop :=
  ∀ key document entry, documents.get? key = some document → KeyRecord.decode? document = some entry →
    entry.key = key

/-- Every document can be read and names its own key. -/
def Faithful (documents : Documents) : Prop :=
  ∀ key document, documents.get? key = some document →
    ∃ record, KeyRecord.decode? document = some ⟨key, record⟩

variable {documents : Documents}

theorem Faithful.honest (h : documents.Faithful) : documents.Honest := by
  intro key document entry hget hdecode
  obtain ⟨record, hrecord⟩ := h key document hget
  rw [hrecord] at hdecode
  cases hdecode
  rfl

theorem faithful_empty : Faithful .empty := fun _ _ h => nomatch h

theorem get?_records (documents : Documents) (key : String) :
    documents.records.get? key = (documents.get? key).bind record? := KeyMap.get?_collect ..

/-! ### Changes -/

theorem Honest.put (h : documents.Honest) (entry : KeyRecord) : (documents.put entry).Honest := by
  intro key document entry' hget hdecode
  rw [Documents.put, KeyMap.get?_insert] at hget
  split at hget
  next hkey =>
    cases hget
    rw [KeyRecord.decode?_encode] at hdecode
    cases hdecode
    exact hkey.symm
  next => exact h key document entry' hget hdecode

theorem Honest.erase (h : documents.Honest) (key : String) : Honest (documents.erase key) := by
  intro key' document entry hget hdecode
  rw [KeyMap.get?_erase] at hget
  split at hget
  next => cases hget
  next => exact h key' document entry hget hdecode

theorem Faithful.put (h : documents.Faithful) (entry : KeyRecord) : (documents.put entry).Faithful := by
  intro key document hget
  rw [Documents.put, KeyMap.get?_insert] at hget
  split at hget
  next hkey =>
    cases hget
    exact ⟨entry.record, by rw [KeyRecord.decode?_encode, hkey]⟩
  next => exact h key document hget

theorem Faithful.erase (h : documents.Faithful) (key : String) : Faithful (documents.erase key) := by
  intro key' document hget
  rw [KeyMap.get?_erase] at hget
  split at hget
  next => cases hget
  next => exact h key' document hget

/-- A document that was put is read back. -/
theorem records_put (documents : Documents) (entry : KeyRecord) :
    (documents.put entry).records = documents.records.insert entry.key entry.record := by
  apply KeyMap.ext_get?
  intro key
  rw [get?_records, Documents.put, KeyMap.get?_insert, KeyMap.get?_insert]
  split
  next => simp [record?, KeyRecord.decode?_encode]
  next => rw [get?_records]

theorem records_erase (documents : Documents) (key : String) :
    records (documents.erase key) = documents.records.erase key := by
  apply KeyMap.ext_get?
  intro key'
  rw [get?_records, KeyMap.get?_erase, KeyMap.get?_erase]
  split
  next => rfl
  next => rw [get?_records]

/-! ### Answers -/

theorem Faithful.find? (h : documents.Faithful) (key : String) :
    documents.find? key = some ((documents.records.get? key).map (⟨key, ·⟩)) := by
  unfold Documents.find?
  cases hget : documents.get? key with
  | none => simp [get?_records, hget]
  | some document =>
    obtain ⟨record, hrecord⟩ := h key document hget
    simp [get?_records, hget, record?, hrecord]

theorem run_eq (documents : Documents) (start : String) :
    documents.run start = documents.toList.filter fun e => startsWith start e.1 :=
  filter_startsWith documents.sorted

/-- The scan of a run of documents finds what the records under these keys are. -/
theorem Honest.list (h : documents.Honest) (start : String) :
    documents.list start =
      (documents.records.toList.filter fun e => startsWith start e.1).map fun e => ⟨e.1, e.2⟩ := by
  have hkeys : ∀ e ∈ documents.toList, ∀ entry, KeyRecord.decode? e.2 = some entry → entry.key = e.1 :=
    fun e he entry hdecode => h e.1 e.2 entry (KeyMap.mem_toList_iff.1 he) hdecode
  unfold Documents.list
  rw [run_eq]
  simp only [records, KeyMap.collect]
  generalize documents.toList = l at hkeys
  induction l with
  | nil => rfl
  | cons e rest ih =>
    have ih := ih fun x hx => hkeys x (List.mem_cons_of_mem _ hx)
    have hkey := hkeys e List.mem_cons_self
    rw [List.filter_cons]
    cases hdecode : KeyRecord.decode? e.2 with
    | none =>
      rw [List.filterMap_cons_none (by simp [record?, hdecode]), ← ih]
      split
      next => simp only [List.filterMap_cons, hdecode]
      next => rfl
    | some entry =>
      have hentry : entry.key = e.1 := hkey entry hdecode
      rw [List.filterMap_cons_some (b := (e.1, entry.record)) (by simp [record?, hdecode]), List.filter_cons]
      split
      next =>
        simp only [List.filterMap_cons, hdecode, List.map_cons]
        rw [ih, ← hentry]
      next => exact ih

end Documents

open Documents

/-- The calls on a faithful collection are the calls on its records. -/
theorem performDocuments_records {documents : Documents} (h : documents.Faithful) (call : StoreCall) :
    (performDocuments documents call).1 = (performEntries documents.records call).1 ∧
      (performDocuments documents call).2.records = (performEntries documents.records call).2 := by
  cases call with
  | put entry => exact ⟨rfl, records_put documents entry⟩
  | get key => simp [performDocuments, performEntries, h.find? key]
  | list start => exact ⟨congrArg Reply.listed (h.honest.list start), rfl⟩
  | delete key => exact ⟨rfl, records_erase documents key⟩

theorem Documents.Faithful.performDocuments {documents : Documents} (h : documents.Faithful)
    (call : StoreCall) :
    (performDocuments documents call).2.Faithful := by
  cases call with
  | put entry => exact h.put entry
  | get key => rw [RoutedCache.performDocuments, h.find? key]; exact h
  | list start => exact h
  | delete key => exact h.erase key

theorem Documents.Honest.performDocuments {documents : Documents} (h : documents.Honest) (call : StoreCall) :
    (performDocuments documents call).2.Honest := by
  cases call with
  | put entry => exact h.put entry
  | get key =>
    unfold RoutedCache.performDocuments
    dsimp only
    split <;> exact h
  | list start => exact h
  | delete key => exact h.erase key

/-! ### A record and its document -/

namespace Documents

theorem get?_put (documents : Documents) (entry : KeyRecord) :
    (documents.put entry).get? entry.key = some entry.encode := by
  rw [Documents.put, KeyMap.get?_insert, if_pos rfl]

theorem find?_put (documents : Documents) (entry : KeyRecord) :
    (documents.put entry).find? entry.key = some (some entry) := by
  have hget := get?_put documents entry
  simp only [Documents.find?, hget, KeyRecord.decode?_encode, Option.map_some]

theorem mem_list_put (documents : Documents) (entry : KeyRecord) {start : String}
    (h : startsWith start entry.key = true) : entry ∈ (documents.put entry).list start := by
  have hstored : (entry.key, entry.encode) ∈ (documents.put entry).toList :=
    KeyMap.mem_toList_iff.2 (get?_put documents entry)
  have hrun : (entry.key, entry.encode) ∈ (documents.put entry).run start := by
    rw [run_eq, List.mem_filter]
    exact ⟨hstored, h⟩
  unfold Documents.list
  rw [List.mem_filterMap]
  exact ⟨_, hrun, KeyRecord.decode?_encode entry⟩

end Documents

/-- The document that a put leaves is read back as the record that was put, and so are the look-ups and the
listings of the collection after it. -/
theorem Store.document_reads_back (file : Place) (collection : String) (opened : Database)
    (documents : Documents) (entry : KeyRecord) :
    ∃ after : Documents,
      (document file collection opened documents).perform (.put entry) =
        (.done, document file collection opened after) ∧
      after.get? entry.key = some entry.encode ∧ KeyRecord.decode? entry.encode = some entry ∧
      (document file collection opened after).perform (.get entry.key) =
        (.found (some entry), document file collection opened after) ∧
      ∀ start, ∃ entries, (document file collection opened after).perform (.list start) =
        (.listed entries, document file collection opened after) ∧
          (startsWith start entry.key = true → entry ∈ entries) := by
  refine ⟨documents.put entry, rfl, get?_put documents entry, KeyRecord.decode?_encode entry, ?_, ?_⟩
  · have hfind := find?_put documents entry
    simp only [Store.perform, performDocuments, hfind]
  · intro start
    exact ⟨(documents.put entry).list start, rfl, fun h => mem_list_put documents entry h⟩

/-- The key has a control character, a quote and a backslash, the record begins with the earliest instant and ends
in a leap second, and its payload is not a multiple of three bytes. -/
example :
    let stop : Instant := ⟨951782399, 1999999999, by decide, by decide, by decide, by decide⟩
    let entry : KeyRecord := ⟨"notes/\u0001\"\\é", ⟨[0, 255, 34, 92, 7], ⟨.earliest, some stop, true⟩⟩⟩
    KeyRecord.decode? entry.encode = some entry := by
  decide +kernel

end RoutedCache

import RoutedCache.Cache.Request
import RoutedCache.Proofs.Store.Documents

/-!
# Cells

A store keeps a cell under each key: a record in memory, or the text of a document.  In these terms the calls do
the same in both kinds of stores (`Store.Honest.put`, `Store.Honest.delete`, `Store.Honest.get`,
`Store.Honest.list`).  One store fades from another if it has the same cells except for some whose records are
gone (`Store.Fades`), and a look-up does not tell the two apart (`Store.Fades.next_get`).
-/

namespace RoutedCache

/-! ### Records that have expired -/

/-- At some time that the clock showed up to now the record was not valid any more. -/
def Record.Expired (clock : Clock) (record : Record) : Prop :=
  ∃ earlier : Clock, ∃ t, earlier.nanos ≤ clock.nanos ∧ earlier.read? = some t ∧ record.isValidAt t = false

theorem Clock.read?_mono {a b : Clock} {s t : Instant} (h : a.nanos ≤ b.nanos) (ha : a.read? = some s)
    (hb : b.read? = some t) : s ≤ t := by
  have hparts {clock : Clock} {u : Instant} (hu : clock.read? = some u) :
      u.seconds = clock.nanos / 1000000000 ∧ u.nanos = (clock.nanos % 1000000000).toNat := by
    unfold read? Instant.ofNanos? Instant.ofParts? at hu
    split at hu
    next =>
      split at hu
      next => cases hu; exact ⟨rfl, rfl⟩
      next => cases hu
    next => cases hu
  obtain ⟨hs, hs'⟩ := hparts ha
  obtain ⟨ht, ht'⟩ := hparts hb
  rw [Instant.le_def]
  omega

theorem Record.isValidAt_anti {record : Record} {s t : Instant} (hle : s ≤ t) (h : record.isValidAt s = false) :
    record.isValidAt t = false := by
  unfold isValidAt Metadata.isValidAt at h ⊢
  split at h
  next stop hstop =>
    simp only [decide_eq_false_iff_not, Instant.lt_def, Instant.le_def] at h hle ⊢
    omega
  next => cases h

namespace Record.Expired

variable {record : Record} {clock : Clock}

theorem mono (h : record.Expired clock) {later : Clock} (hle : clock.nanos ≤ later.nanos) :
    record.Expired later := by
  obtain ⟨earlier, t, hearlier, hread, hvalid⟩ := h
  exact ⟨earlier, t, by omega, hread, hvalid⟩

/-- A clock that does not go back shows no time at which the record is valid again. -/
theorem not_valid (h : record.Expired clock) {now : Instant} (hnow : clock.read? = some now) :
    record.isValidAt now = false := by
  obtain ⟨earlier, t, hearlier, hread, hvalid⟩ := h
  exact isValidAt_anti (Clock.read?_mono hearlier hread hnow) hvalid

end Record.Expired

/-! ### Cells of a store -/

/-- What a store keeps under a key. -/
inductive Cell where
  | value (record : Record)
  | text (document : Bytes)
deriving DecidableEq

/-- The record of a cell, if its text can be read. -/
def Cell.record? : Cell → Option Record
  | value record => some record
  | text document => Documents.record? document

namespace Store

def cell? : Store → String → Option Cell
  | memory entries, key => (entries.get? key).map .value
  | document _ _ _ documents, key => (documents.get? key).map .text
  | faulty _ entries, key => (entries.get? key).map .value

/-- The cell that a put of the entry makes. -/
def cellOf : Store → KeyRecord → Cell
  | document .., entry => .text entry.encode
  | _, entry => .value entry.record

/-- A store in memory or of documents; those that can be read name their own keys. -/
def Honest : Store → Prop
  | memory _ => True
  | document _ _ _ documents => documents.Honest
  | faulty .. => False

/-- The stores are of one kind and at one place. -/
def Twin : Store → Store → Prop
  | memory _, memory _ => True
  | document file collection opened _, document file' collection' opened' _ =>
    file = file' ∧ collection = collection' ∧ opened = opened'
  | _, _ => False

/-- The reply to a look-up that finds this cell. -/
def replyOf (key : String) : Option Cell → Reply
  | none => .found none
  | some cell =>
    match cell.record? with
    | some record => .found (some ⟨key, record⟩)
    | none => .failed .undecodable

namespace Twin

variable {store store' : Store}

theorem cellOf (h : store.Twin store') (entry : KeyRecord) : store'.cellOf entry = store.cellOf entry := by
  cases store <;> cases store' <;> first | rfl | exact h.elim

theorem perform (h : store.Twin store') (call : StoreCall) :
    (store.perform call).2.Twin (store'.perform call).2 := by
  cases store <;> cases store' <;> first | exact h | exact h.elim

end Twin

namespace Honest

variable {store : Store}

theorem twin (h : store.Honest) : store.Twin store := by
  cases store with
  | memory => trivial
  | document => exact ⟨rfl, rfl, rfl⟩
  | faulty => exact h

theorem perform (h : store.Honest) (call : StoreCall) : (store.perform call).2.Honest := by
  cases store with
  | memory => trivial
  | document => exact Documents.Honest.performDocuments h call
  | faulty => exact h.elim

theorem put (h : store.Honest) (entry : KeyRecord) : (store.perform (.put entry)).1 = .done ∧
    ∀ key, (store.perform (.put entry)).2.cell? key =
      if key = entry.key then some (store.cellOf entry) else store.cell? key := by
  cases store with
  | memory entries =>
    refine ⟨rfl, fun key => ?_⟩
    show ((entries.insert entry.key entry.record).get? key).map _ = _
    rw [KeyMap.get?_insert]
    split <;> rfl
  | document file collection opened documents =>
    refine ⟨rfl, fun key => ?_⟩
    show ((documents.put entry).get? key).map _ = _
    rw [Documents.put, KeyMap.get?_insert]
    split <;> rfl
  | faulty => exact h.elim

theorem delete (h : store.Honest) (key : String) : (store.perform (.delete key)).1 = .done ∧
    ∀ key', (store.perform (.delete key)).2.cell? key' = if key' = key then none else store.cell? key' := by
  cases store with
  | memory entries =>
    refine ⟨rfl, fun key' => ?_⟩
    show ((entries.erase key).get? key').map _ = _
    rw [KeyMap.get?_erase]
    split <;> rfl
  | document file collection opened documents =>
    refine ⟨rfl, fun key' => ?_⟩
    show (KeyMap.get? (documents.erase key) key').map _ = _
    rw [KeyMap.get?_erase]
    split <;> rfl
  | faulty => exact h.elim

theorem get (h : store.Honest) (key : String) :
    store.perform (.get key) = (replyOf key (store.cell? key), store) := by
  cases store with
  | memory entries =>
    show (Reply.found ((entries.get? key).map (⟨key, ·⟩)), memory entries) = _
    cases hget : entries.get? key <;> simp [cell?, hget, replyOf, Cell.record?]
  | document file collection opened documents =>
    simp only [Store.perform, performDocuments, Documents.find?, cell?]
    cases hget : documents.get? key with
    | none => rfl
    | some text =>
      -- A document that cannot be read is no record and fails the call, but it has its cell.
      cases hdecode : KeyRecord.decode? text with
      | none => simp [hdecode, replyOf, Cell.record?, Documents.record?]
      | some entry =>
        have hkey : entry.key = key := h key text entry hget hdecode
        subst hkey
        simp [hdecode, replyOf, Cell.record?, Documents.record?]
  | faulty => exact h.elim

/-- A listing shows what the store keeps. -/
theorem list (h : store.Honest) (start : String) :
    ∃ entries, store.perform (.list start) = (.listed entries, store) ∧
    ∀ entry ∈ entries, ∃ cell, store.cell? entry.key = some cell ∧ cell.record? = some entry.record := by
  cases store with
  | memory content =>
    refine ⟨_, rfl, fun entry hentry => ?_⟩
    obtain ⟨e, he, rfl⟩ := List.mem_map.1 hentry
    have hget := KeyMap.mem_toList_iff.1 (List.mem_filter.1 he).1
    exact ⟨.value e.2, by simp [cell?, hget], rfl⟩
  | document file collection opened documents =>
    refine ⟨_, rfl, fun entry hentry => ?_⟩
    rw [Documents.Honest.list h] at hentry
    obtain ⟨e, he, rfl⟩ := List.mem_map.1 hentry
    have hget := KeyMap.mem_toList_iff.1 (List.mem_filter.1 he).1
    rw [Documents.get?_records, Option.bind_eq_some_iff] at hget
    obtain ⟨text, htext, hrecord⟩ := hget
    exact ⟨.text text, by simp [cell?, htext], hrecord⟩
  | faulty => exact h.elim

end Honest

/-! ### Stores that fade -/

/-- The stores differ by missing cells only, and the records of these are gone. -/
structure Fades (gone : Record → Prop) (full faded : Store) : Prop where
  twin : full.Twin faded
  cells : ∀ key, faded.cell? key = full.cell? key ∨
    faded.cell? key = none ∧ ∃ cell record, full.cell? key = some cell ∧ cell.record? = some record ∧
      gone record

namespace Fades

variable {gone gone' : Record → Prop} {full faded : Store}

theorem refl (h : full.Honest) : full.Fades gone full := ⟨h.twin, fun _ => .inl rfl⟩

theorem mono (h : full.Fades gone faded) (hgone : ∀ record, gone record → gone' record) :
    full.Fades gone' faded where
  twin := h.twin
  cells key := (h.cells key).imp_right fun ⟨hnone, cell, record, hcell, hrecord, hg⟩ =>
    ⟨hnone, cell, record, hcell, hrecord, hgone record hg⟩

theorem put (h : full.Fades gone faded) (hfull : full.Honest) (hfaded : faded.Honest) (entry : KeyRecord) :
    (full.perform (.put entry)).2.Fades gone (faded.perform (.put entry)).2 := by
  refine ⟨h.twin.perform _, fun key => ?_⟩
  rw [(hfull.put entry).2, (hfaded.put entry).2, h.twin.cellOf]
  split
  next => exact .inl rfl
  next => exact h.cells key

theorem delete (h : full.Fades gone faded) (hfull : full.Honest) (hfaded : faded.Honest) (key : String) :
    (full.perform (.delete key)).2.Fades gone (faded.perform (.delete key)).2 := by
  refine ⟨h.twin.perform _, fun key' => ?_⟩
  rw [(hfull.delete key).2, (hfaded.delete key).2]
  split
  next => exact .inl rfl
  next => exact h.cells key'

/-- A cell may be deleted from the faded store alone if its record is gone. -/
theorem wipe (h : full.Fades gone faded) (hfaded : faded.Honest) {key : String}
    (hkey : ∀ cell, faded.cell? key = some cell → ∃ record, cell.record? = some record ∧ gone record) :
    full.Fades gone (faded.perform (.delete key)).2 := by
  refine ⟨?_, fun key' => ?_⟩
  · cases full <;> cases faded <;> first | exact h.twin | exact h.twin.elim
  · rw [(hfaded.delete key).2]
    split
    next heq =>
      subst heq
      rcases h.cells key' with hsame | hgone
      · cases hcell : faded.cell? key' with
        | none => exact .inl (hcell.symm.trans hsame)
        | some cell =>
          obtain ⟨record, hrecord, hg⟩ := hkey cell hcell
          exact .inr ⟨rfl, cell, record, hsame.symm.trans hcell, hrecord, hg⟩
      · exact .inr ⟨rfl, hgone.2⟩
    next => exact h.cells key'

/-- A look-up in both stores leads to the same turn, given that no record that is gone is valid now. -/
theorem next_get (h : full.Fades gone faded) (hfull : full.Honest) (hfaded : faded.Honest) {clock : Clock}
    {now : Instant} (hnow : clock.read? = some now)
    (hgone : ∀ record, gone record → record.isValidAt now = false)
    (key : String) : (Visit.get key).next clock false (faded.perform (.get key)).1 =
      (Visit.get key).next clock false (full.perform (.get key)).1 := by
  rw [hfull.get, hfaded.get]
  rcases h.cells key with hsame | ⟨hnone, cell, record, hcell, hrecord, hg⟩
  · rw [hsame]
  · rw [hnone, hcell]
    simp [replyOf, hrecord, Visit.next, Visit.readOn, hnow, hgone record hg]

end Fades

end Store

end RoutedCache

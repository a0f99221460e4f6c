import Mathlib.Data.List.TakeWhile
import RoutedCache.Proofs.Store.Documents

/-!
# The scan of a prefix

A listing scans the documents from the first key that is not below the prefix on, passes over those that cannot be
read and stops at the first key without the prefix.  Byte by byte, the keys with the prefix stand next to each other:
what is in front of the scan is below the prefix, and nothing behind its end has the prefix
(`Documents.toList_eq_run`).  A document that cannot be read is as good as absent (`Documents.list_insert_unreadable`).
Hence the scan loses nothing (`Store.scan_loses_nothing`).
-/

namespace RoutedCache

/-- A key starts with a prefix exactly if its bytes start with those of the prefix. -/
theorem startsWith_iff_prefix {start key : String} : startsWith start key = true ↔ utf8 start <+: utf8 key := by
  rw [utf8_prefix_iff, startsWith, List.isPrefixOf_iff_prefix]

namespace Documents

variable (documents : Documents) (start : String)

/-- The records of the documents that can be read, under the keys of the collection. -/
def readable : KeyMap KeyRecord := documents.collect KeyRecord.decode?

theorem get?_readable (key : String) :
    documents.readable.get? key = (documents.get? key).bind KeyRecord.decode? := KeyMap.get?_collect ..

/-- The records that a listing answers, each under the key at which the scan has met its document. -/
def scanned : List (String × KeyRecord) := documents.readable.toList.filter fun found => startsWith start found.1

/-- What a list of documents shows: the documents are read first and the prefix is checked, or the other way. -/
private theorem map_filter_filterMap (l : List (String × Bytes)) :
    ((l.filterMap fun e => (KeyRecord.decode? e.2).map (e.1, ·)).filter fun found => startsWith start found.1).map
      (·.2) = (l.filter fun e => startsWith start e.1).filterMap fun e => KeyRecord.decode? e.2 := by
  induction l with
  | nil => rfl
  | cons e rest ih =>
    cases hdecode : KeyRecord.decode? e.2 with
    | none => by_cases hstart : startsWith start e.1 = true <;> simp [hdecode, hstart, ih]
    | some entry => by_cases hstart : startsWith start e.1 = true <;> simp [hdecode, hstart, ih]

theorem map_scanned : (documents.scanned start).map (·.2) = documents.list start := by
  rw [Documents.list, run_eq]
  exact map_filter_filterMap start documents.toList

theorem mem_scanned_iff {key : String} {entry : KeyRecord} : (key, entry) ∈ documents.scanned start ↔
    ∃ text, documents.get? key = some text ∧ utf8 start <+: utf8 key ∧ KeyRecord.decode? text = some entry := by
  unfold scanned
  rw [List.mem_filter, KeyMap.mem_toList_iff, get?_readable, Option.bind_eq_some_iff, startsWith_iff_prefix]
  constructor
  · rintro ⟨⟨text, hget, hdecode⟩, hstart⟩
    exact ⟨text, hget, hstart, hdecode⟩
  · rintro ⟨text, hget, hstart, hdecode⟩
    exact ⟨⟨text, hget, hdecode⟩, hstart⟩

theorem scanned_increasing : (documents.scanned start).Pairwise fun found later => utf8 found.1 < utf8 later.1 := by
  refine (documents.readable.sorted.filter _).imp ?_
  intro found later hlt
  exact utf8_lt_iff.2 hlt

/-- The scan begins behind keys that are below the prefix, and it stops before keys without the prefix only. -/
theorem toList_eq_run : ∃ below above, documents.toList = below ++ documents.run start ++ above ∧
    (∀ e ∈ below, utf8 e.1 < utf8 start ∧ ¬utf8 start <+: utf8 e.1) ∧
    (∀ e ∈ documents.run start, utf8 start <+: utf8 e.1) ∧ ∀ e ∈ above, ¬utf8 start <+: utf8 e.1 := by
  have hrun := documents.run_eq start
  let onward := documents.toList.dropWhile fun e => decide (e.1 < start)
  let below := documents.toList.takeWhile fun e => decide (e.1 < start)
  let above := onward.dropWhile fun e => startsWith start e.1
  have hsplit : documents.toList = below ++ documents.run start ++ above := by
    have honward : onward = documents.run start ++ above := List.takeWhile_append_dropWhile.symm
    rw [List.append_assoc, ← honward]
    exact List.takeWhile_append_dropWhile.symm
  have hbelow : ∀ e ∈ below, e.1 < start ∧ ¬startsWith start e.1 = true := by
    intro e he
    have hlt : e.1 < start := by simpa using List.mem_takeWhile_imp he
    exact ⟨hlt, fun hstart => not_lt_of_startsWith hstart hlt⟩
  have hinside : ∀ e ∈ documents.run start, startsWith start e.1 = true := by
    intro e he
    rw [hrun] at he
    exact (List.mem_filter.1 he).2
  have habove : ∀ e ∈ above, ¬startsWith start e.1 = true := by
    -- The entries with the prefix are those of the run, so none is left for the rest.
    have hfilter := hrun
    rw [hsplit, List.filter_append, List.filter_append, List.filter_eq_nil_iff.2 fun e he => (hbelow e he).2,
      List.filter_eq_self.2 hinside, List.nil_append, List.self_eq_append_right] at hfilter
    exact List.filter_eq_nil_iff.1 hfilter
  refine ⟨below, above, hsplit, ?_, ?_, ?_⟩
  · intro e he
    rw [utf8_lt_iff, ← startsWith_iff_prefix]
    exact hbelow e he
  · intro e he
    exact startsWith_iff_prefix.1 (hinside e he)
  · intro e he
    rw [← startsWith_iff_prefix]
    exact habove e he

/-- A document that cannot be read is not seen by a listing, wherever it stands. -/
theorem list_insert_unreadable {key : String} {text : Bytes} (h : KeyRecord.decode? text = none) :
    list (documents.insert key text) start = list (documents.erase key) start := by
  have hreadable : readable (documents.insert key text) = readable (documents.erase key) := by
    apply KeyMap.ext_get?
    intro key'
    rw [get?_readable, get?_readable, KeyMap.get?_insert, KeyMap.get?_erase]
    by_cases hkey : key' = key
    · simp [hkey, h]
    · simp [hkey]
  rw [← map_scanned, ← map_scanned, scanned, scanned, hreadable]

end Documents

/-- A listing answers the records of exactly those documents that can be read and whose keys begin with the prefix,
each once and by increasing keys.  It misses none by stopping at the first key without the prefix, and a document
that cannot be read changes nothing. -/
theorem Store.scan_loses_nothing (file : Place) (collection : String) (opened : Database) (documents : Documents)
    (start : String) :
    documents.toList.Pairwise (fun entry later => utf8 entry.1 < utf8 later.1) ∧
    (∃ found : List (String × KeyRecord),
      (document file collection opened documents).perform (.list start) =
        (.listed (found.map (·.2)), document file collection opened documents) ∧
      found.Pairwise (fun entry later => utf8 entry.1 < utf8 later.1) ∧
      ∀ key entry, (key, entry) ∈ found ↔ ∃ text, documents.get? key = some text ∧
        utf8 start <+: utf8 key ∧ KeyRecord.decode? text = some entry) ∧
    (∃ below above, documents.toList = below ++ documents.run start ++ above ∧
      (∀ entry ∈ below, utf8 entry.1 < utf8 start ∧ ¬utf8 start <+: utf8 entry.1) ∧
      (∀ entry ∈ documents.run start, utf8 start <+: utf8 entry.1) ∧
      ∀ entry ∈ above, ¬utf8 start <+: utf8 entry.1) ∧
    ∀ key text, KeyRecord.decode? text = none →
      ((document file collection opened (documents.insert key text)).perform (.list start)).1 =
        ((document file collection opened (documents.erase key)).perform (.list start)).1 := by
  refine ⟨?_, ⟨documents.scanned start, ?_, documents.scanned_increasing start, ?_⟩,
    documents.toList_eq_run start, ?_⟩
  · refine documents.sorted.imp ?_
    intro entry later hlt
    exact utf8_lt_iff.2 hlt
  · rw [Documents.map_scanned]
    rfl
  · intro key entry
    exact documents.mem_scanned_iff start
  · intro key text h
    exact congrArg Reply.listed (documents.list_insert_unreadable start h)

/-- A document that cannot be read stands between two that can, under keys of several bytes for a character. -/
theorem Store.scan_loses_nothing_between :
    let first : KeyRecord := ⟨"m/é", ⟨[1], ⟨.earliest, none, false⟩⟩⟩
    let last : KeyRecord := ⟨"m/€", ⟨[2], ⟨.latest, none, true⟩⟩⟩
    let whole := (Documents.put .empty first).put last
    let damaged : Documents := whole.insert "m/ü" [0x7B, 0xFF]
    KeyRecord.decode? [0x7B, 0xFF] = none ∧
      (∃ found : List (String × KeyRecord), (document [] "c" .empty damaged).perform (.list "m/") =
        (.listed (found.map (·.2)), document [] "c" .empty damaged) ∧
        ("m/é", first) ∈ found ∧ ("m/€", last) ∈ found) ∧
      ((document [] "c" .empty damaged).perform (.list "m/")).1 =
        ((document [] "c" .empty (whole.erase "m/ü")).perform (.list "m/")).1 := by
  intro first last whole damaged
  have hnone : KeyRecord.decode? [0x7B, 0xFF] = none := by decide +kernel
  have hfirst : damaged.get? "m/é" = some first.encode := by
    simp [damaged, whole, Documents.put, first, last]
  have hlast : damaged.get? "m/€" = some last.encode := by
    simp [damaged, whole, Documents.put, first, last]
  obtain ⟨-, ⟨found, hlisted, -, hfound⟩, -, -⟩ := scan_loses_nothing [] "c" .empty damaged "m/"
  obtain ⟨-, -, -, hunreadable⟩ := scan_loses_nothing [] "c" .empty whole "m/"
  refine ⟨hnone, ⟨found, hlisted, ?_, ?_⟩, hunreadable "m/ü" _ hnone⟩
  · exact (hfound _ _).2 ⟨_, hfirst, by decide +kernel, KeyRecord.decode?_encode first⟩
  · exact (hfound _ _).2 ⟨_, hlast, by decide +kernel, KeyRecord.decode?_encode last⟩

end RoutedCache

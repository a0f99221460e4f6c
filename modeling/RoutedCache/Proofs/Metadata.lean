import RoutedCache.Proofs.Document

/-!
# The normal form of metadata

A text of metadata may have its fields in any order or as an array, other members among them, white space anywhere and
its times in any zone and spelling that the reader knows.  Written back it is one of few texts: those that are written
back as they are (`Metadata.rewrite?_eq_self_iff`).  Since the reader undoes the writer on all metadata
(`Metadata.decode?_encode`), a text is written back as the only one of them that is read as the same metadata
(`Metadata.rewrites_to_normal_form`).
-/

namespace RoutedCache

open Json

namespace Metadata

/-- The text as it is written back, if it can be read. -/
def rewrite? (text : Bytes) : Option Bytes := (decode? text).map encode

/-! ### Reading what was written -/

private theorem encode_eq_objectText (metadata : Metadata) :
    metadata.encode = objectText (metadata.jsonMembers.map Member.entry) := by
  rw [map_entry_jsonMembers]
  rfl

/-- Each of the three fields is there once. -/
private theorem fields?_jsonMembers_eq (metadata : Metadata) :
    Value.fields? ["created_at", "not_valid_after", "burn_after_reading"]
      (.object (metadata.jsonMembers.map Member.found)) = some (metadata.jsonMembers.map fun m => some m.value) := by
  rw [Value.fields?_object]
  simp [jsonMembers, Value.unique?, name_expiryMember, Member.ofText, Member.ofBool]

/-- Written metadata are read back as they were. -/
theorem decode?_encode (metadata : Metadata) : decode? metadata.encode = some metadata := by
  rw [encode_eq_objectText, decode?, Value.parse?_objectText]
  simp only [Option.bind_eq_bind, Option.bind_some, fields?_jsonMembers_eq]
  exact metadata.ofFields?_jsonMembers

/-- Metadata that are written alike are the same. -/
theorem encode_injective {metadata other : Metadata} (h : metadata.encode = other.encode) : metadata = other := by
  have hread := decode?_encode metadata
  rw [h, decode?_encode other] at hread
  exact (Option.some.inj hread).symm

/-! ### Writing back what was read -/

variable {text : Bytes} {metadata : Metadata}

theorem rewrite?_of_decode? (h : decode? text = some metadata) : rewrite? text = some metadata.encode := by
  rw [rewrite?, h, Option.map_some]

/-- The texts that are written back as they are are those that the writer writes. -/
theorem rewrite?_eq_self_iff : rewrite? text = some text ↔ ∃ metadata : Metadata, text = metadata.encode := by
  constructor
  · intro h
    obtain ⟨metadata, -, hwritten⟩ := Option.map_eq_some_iff.1 h
    exact ⟨metadata, hwritten.symm⟩
  · rintro ⟨metadata, rfl⟩
    exact rewrite?_of_decode? (decode?_encode metadata)

theorem rewrite?_eq_iff {other : Bytes} {metadata' : Metadata} (h : decode? text = some metadata)
    (h' : decode? other = some metadata') : rewrite? text = rewrite? other ↔
      metadata.createdAt = metadata'.createdAt ∧ metadata.notValidAfter = metadata'.notValidAfter ∧
        metadata.burnAfterReading = metadata'.burnAfterReading := by
  rw [rewrite?_of_decode? h, rewrite?_of_decode? h', Option.some.injEq]
  constructor
  · intro hwritten
    have hequal := encode_injective hwritten
    subst hequal
    exact ⟨rfl, rfl, rfl⟩
  · intro ⟨hcreated, hstop, hburn⟩
    cases metadata
    cases metadata'
    cases hcreated
    cases hstop
    cases hburn
    rfl

/-- A text that is read is written back as a text that is read as the same and written back as it is; all metadata are
read as they were written; and two texts are written back alike exactly if they mean the same creation, the same end of
the validity and the same mark. -/
theorem rewrites_to_normal_form :
    (∀ text metadata, decode? text = some metadata → ∃ written, rewrite? text = some written ∧
      decode? written = some metadata ∧ rewrite? written = some written) ∧
    (∀ metadata : Metadata, decode? metadata.encode = some metadata ∧
      rewrite? metadata.encode = some metadata.encode) ∧
    ∀ text other metadata metadata', decode? text = some metadata → decode? other = some metadata' →
      (rewrite? text = rewrite? other ↔ metadata.createdAt = metadata'.createdAt ∧
        metadata.notValidAfter = metadata'.notValidAfter ∧
        metadata.burnAfterReading = metadata'.burnAfterReading) := by
  refine ⟨?_, ?_, ?_⟩
  · intro text metadata h
    exact ⟨metadata.encode, rewrite?_of_decode? h, decode?_encode metadata, rewrite?_eq_self_iff.2 ⟨metadata, rfl⟩⟩
  · intro metadata
    exact ⟨decode?_encode metadata, rewrite?_eq_self_iff.2 ⟨metadata, rfl⟩⟩
  · intro text other metadata metadata' h h'
    exact rewrite?_eq_iff h h'

/-- A leap second west of Greenwich and an end east of it, on other days and in another year there, among other
members; the same without any of this; and what both are written back as. -/
example :
    let text := utf8 ("\x7b\"burn_after_reading\" : true, \"x\":[1,\x7b\"y\":null\x7d], \"created_at\":" ++
      "\"2016-12-31t 15:59:60.5004000009-08:00\",\"not_valid_after\":\"+10000-1-1 0:00:00 +0530\"\x7d")
    let array := utf8 "[\"2016-12-31T23:59:60.5004Z\",\"9999-12-31T18:30:00UTC\",true]"
    let written := utf8 ("\x7b\"created_at\":\"2016-12-31T23:59:60.500400Z\"," ++
      "\"not_valid_after\":\"9999-12-31T18:30:00Z\",\"burn_after_reading\":true\x7d")
    rewrite? text = some written ∧ rewrite? array = some written ∧ rewrite? written = some written := by
  decide +kernel

end Metadata

end RoutedCache

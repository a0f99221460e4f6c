import RoutedCache.Document
import RoutedCache.Proofs.Base64
import RoutedCache.Proofs.Json.Members
import RoutedCache.Proofs.Time.ReadBack

/-!
# The round trip of documents

A written record is read back as it was (`KeyRecord.decode?_encode`): its key, its payload, both instants and the
flag.  Instants and payloads are written in ASCII, so that their texts are what their bytes spell.
-/

namespace RoutedCache

open Json

/-! ### Values -/

private theorem toNat_lt_of_mem_toText {t : Instant} {c : Char} (h : c ∈ t.toText) : c.toNat < 128 := by
  have hdigits {count n : Nat} (h : c ∈ fixedDigits count n) : c.toNat < 128 :=
    toNat_lt_of_isDigit (isDigit_of_mem_fixedDigits h)
  have hyear {year : Int} (h : c ∈ Instant.yearText year) : c.toNat < 128 := by
    unfold Instant.yearText at h
    split at h
    · rcases List.mem_cons.1 h with rfl | h
      · decide
      · exact toNat_lt_of_isDigit (isDigit_of_mem_paddedDigits h)
    · split at h
      · rcases List.mem_cons.1 h with rfl | h
        · decide
        · exact toNat_lt_of_isDigit (isDigit_of_mem_paddedDigits h)
      · exact toNat_lt_of_isDigit (isDigit_of_mem_paddedDigits h)
  have hfraction {nanos : Nat} (h : c ∈ Instant.fractionText nanos) : c.toNat < 128 := by
    unfold Instant.fractionText at h
    split at h
    · simp at h
    · split at h
      · rcases List.mem_cons.1 h with rfl | h
        · decide
        · exact hdigits h
      · split at h
        all_goals
          rcases List.mem_cons.1 h with rfl | h
          · decide
          · exact hdigits h
  simp only [Instant.toText, Instant.dateText, Instant.timeText, List.mem_append, List.mem_cons,
    List.not_mem_nil, or_false] at h
  rcases h with (((h | rfl | h) | rfl | h) | rfl | ((h | rfl | h) | rfl | h) | h) | rfl
  all_goals first
    | exact hyear h
    | exact hdigits h
    | exact hfraction h
    | decide

theorem Json.Value.instant?_text (t : Instant) :
    Value.instant? (.text (Piece.pieces (asciiBytes t.toText))) = some t := by
  have hascii : ∀ c ∈ t.toText, c.toNat < 128 := fun _ => toNat_lt_of_mem_toText
  simp only [Value.instant?, Value.text?]
  rw [← utf8_ofList hascii, Piece.text?_pieces, Option.bind_some, String.toList_ofList, Instant.read?_toText]

/-- The written form of a payload is a text. -/
theorem Base64.exists_utf8_eq_encode (data : Bytes) : ∃ text : String, utf8 text = encode data := by
  have hascii : ∀ c ∈ (encode data).map (fun b => Char.ofNat b.toNat), c.toNat < 128 := by
    intro c hc
    obtain ⟨b, hb, rfl⟩ := List.mem_map.1 hc
    have hlt := toNat_lt_of_mem_encode hb
    have : ∀ n : Fin 128, (Char.ofNat n.val).toNat < 128 := by decide
    exact this ⟨b.toNat, hlt⟩
  have hbytes : asciiBytes ((encode data).map fun b => Char.ofNat b.toNat) = encode data := by
    rw [asciiBytes, List.map_map]
    refine (List.map_congr_left fun b hb => ?_).trans (List.map_id _)
    have : ∀ n : Fin 128, (Char.ofNat n.val).toNat.toUInt8 = n.val.toUInt8 := by decide
    exact (this ⟨b.toNat, toNat_lt_of_mem_encode hb⟩).trans UInt8.ofNat_toNat
  exact ⟨_, (utf8_ofList hascii).trans hbytes⟩

theorem Json.Value.payload?_text (data : Bytes) :
    Value.payload? (.text (Piece.pieces (Base64.encode data))) = some data := by
  obtain ⟨text, htext⟩ := Base64.exists_utf8_eq_encode data
  simp only [Value.payload?, Value.text?]
  rw [← htext, Piece.text?_pieces, Option.bind_some, htext, Base64.decode?_encode]

theorem Json.Value.payload?_eq_some_iff {value : Value} {data : Bytes} :
    value.payload? = some data ↔ ∃ text, value.text? = some text ∧ utf8 text = Base64.encode data := by
  simp only [payload?, Option.bind_eq_some_iff, Base64.decode?_eq_some_iff]

/-! ### Metadata -/

def Metadata.expiryMember (metadata : Metadata) : Member :=
  match metadata.notValidAfter with
  | some stop => .ofText "not_valid_after" (asciiBytes stop.toText)
  | none => .ofNull "not_valid_after"

theorem Metadata.name_expiryMember (metadata : Metadata) : metadata.expiryMember.name = "not_valid_after" := by
  unfold expiryMember
  split <;> rfl

def Metadata.jsonMembers (metadata : Metadata) : List Member :=
  [.ofText "created_at" (asciiBytes metadata.createdAt.toText), metadata.expiryMember,
    .ofBool "burn_after_reading" metadata.burnAfterReading]

theorem Metadata.map_entry_jsonMembers (metadata : Metadata) :
    metadata.jsonMembers.map Member.entry = metadata.members := by
  obtain ⟨createdAt, _ | stop, burnAfterReading⟩ := metadata <;> rfl

theorem Metadata.ofFields?_jsonMembers (metadata : Metadata) :
    Metadata.ofFields? (some (.text (Piece.pieces (asciiBytes metadata.createdAt.toText))))
      (some metadata.expiryMember.value) (some (.bool metadata.burnAfterReading)) = some metadata := by
  obtain ⟨createdAt, _ | stop, burnAfterReading⟩ := metadata <;>
    simp [Metadata.ofFields?, Metadata.expiryMember, Member.ofText, Member.ofNull, Value.optionalInstant?,
      Value.instant?_text, Value.bool?]

/-! ### Records -/

namespace KeyRecord

def jsonMembers (entry : KeyRecord) : List Member :=
  .ofText "key" (utf8 entry.key) :: .ofText "data" (Base64.encode entry.record.data) ::
    entry.record.metadata.jsonMembers

theorem encode_eq_objectText (entry : KeyRecord) :
    entry.encode = objectText (entry.jsonMembers.map Member.entry) := by
  rw [encode, jsonMembers, List.map_cons, List.map_cons, Metadata.map_entry_jsonMembers]
  rfl

/-- Each of the five fields is there once. -/
private theorem fields?_jsonMembers (entry : KeyRecord) :
    Value.fields? ["key", "data", "created_at", "not_valid_after", "burn_after_reading"]
      (.object (entry.jsonMembers.map Member.found)) = some (entry.jsonMembers.map fun m => some m.value) := by
  rw [Value.fields?_object]
  simp [jsonMembers, Metadata.jsonMembers, Value.unique?, Metadata.name_expiryMember, Member.ofText, Member.ofBool]

/-- A written record is read back as it was. -/
theorem decode?_encode (entry : KeyRecord) : decode? entry.encode = some entry := by
  rw [encode_eq_objectText, decode?, Value.parse?_objectText]
  simp only [Option.bind_eq_bind, Option.bind_some, fields?_jsonMembers]
  simp only [jsonMembers, Metadata.jsonMembers, List.map_cons, List.map_nil, Member.ofText, Member.ofBool,
    Option.bind_some, Value.text?, Piece.text?_pieces, Value.payload?_text, Metadata.ofFields?_jsonMembers]

end KeyRecord

end RoutedCache

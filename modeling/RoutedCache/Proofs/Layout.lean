import RoutedCache.Proofs.Document
import RoutedCache.Proofs.Json.Structure

/-!
# The layout of a document

What is read of a document hangs on what its members have for the five fields of a record (`KeyRecord.HeldBy`), so it is
the same in whatever order they come and with whatever members of other names between them
(`KeyRecord.decodes_by_fields`).  A text has members in an order if it spells their tokens (`Json.ObjectText`), with any
white space and any escapes.
-/

namespace RoutedCache

namespace Json

/-! ### Members by their names -/

/-- An object with these members in this order. -/
def ObjectText (members : List (String × Value)) (text : Bytes) : Prop :=
  ∃ pieces, Value.named? pieces = some members ∧ SpellsTokens (Value.object pieces).tokens text

/-- The only member of this name. -/
def Sole (members : List (String × Value)) (name : String) (value : Value) : Prop :=
  (members.filter fun member => member.1 = name) = [(name, value)]

def Lacks (members : List (String × Value)) (name : String) : Prop := ∀ member ∈ members, member.1 ≠ name

variable {members : List (String × Value)} {name : String} {text : Bytes}

theorem Value.unique?_eq_some_some {value : Value} :
    Value.unique? members name = some (some value) ↔ Sole members name value := by
  unfold Value.unique? Sole
  have hname : ∀ member ∈ members.filter (fun member => member.1 = name), member.1 = name := by
    intro member hmember
    simpa using (List.mem_filter.1 hmember).2
  generalize members.filter (fun member => member.1 = name) = found at hname
  match found with
  | [] => simp
  | [(name', value')] =>
    have heq : name' = name := hname _ List.mem_cons_self
    simp [heq]
  | _ :: _ :: _ => simp

theorem lacks_iff : Lacks members name ↔ members.filter (fun member => member.1 = name) = [] := by
  simp [Lacks]

theorem Value.unique?_eq_some_none : Value.unique? members name = some none ↔ Lacks members name := by
  rw [lacks_iff]
  unfold Value.unique?
  split
  next h => simp [h]
  next h => simp [h]
  next hnil _ => exact iff_of_false nofun hnil

end Json

open Json

/-- The fields of a document. -/
inductive DocumentField where
  | key
  | data
  | createdAt
  | notValidAfter
  | burnAfterReading
deriving DecidableEq

namespace DocumentField

def name : DocumentField → String
  | key => "key"
  | data => "data"
  | createdAt => "created_at"
  | notValidAfter => "not_valid_after"
  | burnAfterReading => "burn_after_reading"

def names : List String := ["key", "data", "created_at", "not_valid_after", "burn_after_reading"]

theorem name_mem_names (field : DocumentField) : field.name ∈ names := by
  cases field <;> simp [name, names]

/-- Whether a field may have a value of this kind. -/
def HasType : DocumentField → Value → Prop
  | key, value | data, value | createdAt, value => ∃ pieces, value = .text pieces
  | notValidAfter, value => value = .null ∨ ∃ pieces, value = .text pieces
  | burnAfterReading, value => ∃ b, value = .bool b

end DocumentField

namespace KeyRecord

/-- The texts that tell an instant. -/
def Tells (t : Instant) (value : Value) : Prop :=
  ∃ text, value.text? = some text ∧ Instant.read? text.toList = some t

/-- The values that tell a field of a record. -/
def Shows (entry : KeyRecord) : DocumentField → Value → Prop
  | .key, value => value.text? = some entry.key
  | .data, value => ∃ text, value.text? = some text ∧ utf8 text = Base64.encode entry.record.data
  | .createdAt, value => Tells entry.record.metadata.createdAt value
  | .notValidAfter, value =>
    match entry.record.metadata.notValidAfter with
    | none => value = .null
    | some stop => Tells stop value
  | .burnAfterReading, value => value = .bool entry.record.metadata.burnAfterReading

/-- Members with each field of the record once, where an end of the validity that there is not may be left out. -/
def HeldBy (entry : KeyRecord) (members : List (String × Value)) : Prop :=
  ∀ field : DocumentField, (∃ value, Sole members field.name value ∧ entry.Shows field value) ∨
    field = .notValidAfter ∧ entry.record.metadata.notValidAfter = none ∧ Lacks members field.name

variable {members : List (String × Value)} {text : Bytes} {entry : KeyRecord}

private theorem instant?_eq_some_iff {value : Value} {t : Instant} : value.instant? = some t ↔ Tells t value := by
  simp only [Value.instant?, Option.bind_eq_some_iff, Tells]

private theorem bool?_eq_some_iff {value : Value} {b : Bool} : value.bool? = some b ↔ value = .bool b := by
  cases value <;> simp [Value.bool?]

private theorem optionalInstant?_some {value : Value} {stop : Option Instant} :
    Value.optionalInstant? (some value) = some stop ↔
      match stop with
      | none => value = .null
      | some t => Tells t value := by
  cases value with
  | null => cases stop <;> simp [Value.optionalInstant?, Tells, Value.text?]
  | _ => cases stop <;> simp [Value.optionalInstant?, instant?_eq_some_iff]

private theorem ofFields?_eq_some_iff {createdAt notValidAfter burnAfterReading : Option Value} {metadata : Metadata} :
    Metadata.ofFields? createdAt notValidAfter burnAfterReading = some metadata ↔
      createdAt.bind Value.instant? = some metadata.createdAt ∧
        Value.optionalInstant? notValidAfter = some metadata.notValidAfter ∧
        burnAfterReading.bind Value.bool? = some metadata.burnAfterReading := by
  simp only [Metadata.ofFields?, Option.bind_eq_bind, Option.bind_eq_some_iff]
  constructor
  · rintro ⟨_, hcreated, _, hstop, _, hburn, h⟩
    cases h
    exact ⟨hcreated, hstop, hburn⟩
  · rintro ⟨hcreated, hstop, hburn⟩
    exact ⟨_, hcreated, _, hstop, _, hburn, rfl⟩

/-- What is read of an object hangs on what its members have for the fields. -/
private theorem decode?_object (h : ObjectText members text) : decode? text = some entry ↔
    ∃ key data createdAt notValidAfter burnAfterReading,
      Value.unique? members "key" = some key ∧ Value.unique? members "data" = some data ∧
      Value.unique? members "created_at" = some createdAt ∧
      Value.unique? members "not_valid_after" = some notValidAfter ∧
      Value.unique? members "burn_after_reading" = some burnAfterReading ∧
      key.bind Value.text? = some entry.key ∧ data.bind Value.payload? = some entry.record.data ∧
      createdAt.bind Value.instant? = some entry.record.metadata.createdAt ∧
      Value.optionalInstant? notValidAfter = some entry.record.metadata.notValidAfter ∧
      burnAfterReading.bind Value.bool? = some entry.record.metadata.burnAfterReading := by
  obtain ⟨pieces, hnamed, htokens⟩ := h
  have hfields (found : List (Option Value)) : (Value.object pieces).fields?
      ["key", "data", "created_at", "not_valid_after", "burn_after_reading"] = some found ↔
        ∃ key, Value.unique? members "key" = some key ∧ ∃ data, Value.unique? members "data" = some data ∧
        ∃ createdAt, Value.unique? members "created_at" = some createdAt ∧
        ∃ notValidAfter, Value.unique? members "not_valid_after" = some notValidAfter ∧
        ∃ burnAfterReading, Value.unique? members "burn_after_reading" = some burnAfterReading ∧
        [key, data, createdAt, notValidAfter, burnAfterReading] = found := by
    simp only [Value.fields?, hnamed, Option.bind_eq_bind, Option.bind_some, List.mapM_cons, List.mapM_nil,
      Option.pure_def, Option.bind_assoc, Option.bind_eq_some_iff, Option.some.injEq]
  rw [decode?, Value.parse?_eq_some_iff.2 htokens]
  simp only [Option.bind_eq_bind, Option.bind_some]
  constructor
  · intro h
    obtain ⟨found, hfound, h⟩ := Option.bind_eq_some_iff.1 h
    obtain ⟨key, hkey, data, hdata, created, hcreated, stop, hstop, burn, hburn, rfl⟩ := (hfields found).1 hfound
    obtain ⟨key', hkey', h⟩ := Option.bind_eq_some_iff.1 h
    obtain ⟨data', hdata', h⟩ := Option.bind_eq_some_iff.1 h
    obtain ⟨metadata, hmetadata, h⟩ := Option.bind_eq_some_iff.1 h
    cases h
    exact ⟨key, data, created, stop, burn, hkey, hdata, hcreated, hstop, hburn, hkey', hdata',
      ofFields?_eq_some_iff.1 hmetadata⟩
  · rintro ⟨key, data, created, stop, burn, hkey, hdata, hcreated, hstop, hburn, hkey', hdata', hmetadata⟩
    rw [(hfields _).2 ⟨key, hkey, data, hdata, created, hcreated, stop, hstop, burn, hburn, rfl⟩]
    simp only [Option.bind_some, hkey', hdata', ofFields?_eq_some_iff.2 hmetadata]

private theorem sole_of_bind {α : Type} {read : Value → Option α} {name : String} {found : Option Value} {result : α}
    (h : Value.unique? members name = some found) (hread : found.bind read = some result) :
    ∃ value, Sole members name value ∧ read value = some result := by
  obtain ⟨value, rfl, hvalue⟩ := Option.bind_eq_some_iff.1 hread
  exact ⟨value, Value.unique?_eq_some_some.1 h, hvalue⟩

/-- An object is read as the record whose fields it has. -/
theorem decode?_eq_some_iff (h : ObjectText members text) : decode? text = some entry ↔ entry.HeldBy members := by
  rw [decode?_object h]
  constructor
  · rintro ⟨key, data, created, stop, burn, hkey, hdata, hcreated, hstop, hburn, hkey', hdata', hcreated', hstop',
      hburn'⟩
    intro field
    cases field with
    | key =>
      obtain ⟨value, hsole, hvalue⟩ := sole_of_bind hkey hkey'
      exact .inl ⟨value, hsole, hvalue⟩
    | data =>
      obtain ⟨value, hsole, hvalue⟩ := sole_of_bind hdata hdata'
      exact .inl ⟨value, hsole, Value.payload?_eq_some_iff.1 hvalue⟩
    | createdAt =>
      obtain ⟨value, hsole, hvalue⟩ := sole_of_bind hcreated hcreated'
      exact .inl ⟨value, hsole, instant?_eq_some_iff.1 hvalue⟩
    | notValidAfter =>
      cases stop with
      | none => exact .inr ⟨rfl, (Option.some.inj hstop').symm, Value.unique?_eq_some_none.1 hstop⟩
      | some value => exact .inl ⟨value, Value.unique?_eq_some_some.1 hstop, optionalInstant?_some.1 hstop'⟩
    | burnAfterReading =>
      obtain ⟨value, hsole, hvalue⟩ := sole_of_bind hburn hburn'
      exact .inl ⟨value, hsole, bool?_eq_some_iff.1 hvalue⟩
  · intro h
    have hrequired (field : DocumentField) (hne : field ≠ .notValidAfter) :
        ∃ value, Value.unique? members field.name = some (some value) ∧ entry.Shows field value := by
      rcases h field with ⟨value, hsole, hshows⟩ | ⟨heq, -⟩
      · exact ⟨value, Value.unique?_eq_some_some.2 hsole, hshows⟩
      · exact absurd heq hne
    obtain ⟨key, hkey, hkey'⟩ := hrequired .key nofun
    obtain ⟨data, hdata, hdata'⟩ := hrequired .data nofun
    obtain ⟨created, hcreated, hcreated'⟩ := hrequired .createdAt nofun
    obtain ⟨burn, hburn, hburn'⟩ := hrequired .burnAfterReading nofun
    have hstop : ∃ stop, Value.unique? members "not_valid_after" = some stop ∧
        Value.optionalInstant? stop = some entry.record.metadata.notValidAfter := by
      rcases h .notValidAfter with ⟨value, hsole, hshows⟩ | ⟨-, hnone, hlacks⟩
      · exact ⟨some value, Value.unique?_eq_some_some.2 hsole, optionalInstant?_some.2 hshows⟩
      · exact ⟨none, Value.unique?_eq_some_none.2 hlacks, congrArg some hnone.symm⟩
    obtain ⟨stop, hstop, hstop'⟩ := hstop
    exact ⟨some key, some data, some created, stop, some burn, hkey, hdata, hcreated, hstop, hburn, hkey',
      Value.payload?_eq_some_iff.2 hdata', instant?_eq_some_iff.2 hcreated', hstop', bool?_eq_some_iff.2 hburn'⟩

/-! ### What the layout leaves as it is -/

private theorem filter_name {name : String} (h : name ∈ DocumentField.names) (members : List (String × Value)) :
    members.filter (fun member => member.1 = name) =
      (members.filter fun member => member.1 ∈ DocumentField.names).filter fun member => member.1 = name := by
  rw [List.filter_filter]
  refine List.filter_congr fun member _ => ?_
  by_cases hname : member.1 = name <;> simp [hname, h]

/-- The order of the members and those of other names do not matter. -/
theorem HeldBy.congr {members' : List (String × Value)} (h : entry.HeldBy members)
    (hp : (members.filter fun member => member.1 ∈ DocumentField.names).Perm
      (members'.filter fun member => member.1 ∈ DocumentField.names)) : entry.HeldBy members' := by
  intro field
  have hfield := hp.filter fun member => member.1 = field.name
  rw [← filter_name field.name_mem_names, ← filter_name field.name_mem_names] at hfield
  rcases h field with ⟨value, hsole, hshows⟩ | ⟨heq, hnone, hlacks⟩
  · rw [Sole] at hsole
    rw [hsole] at hfield
    exact .inl ⟨value, List.perm_singleton.1 hfield.symm, hshows⟩
  · rw [lacks_iff] at hlacks
    rw [hlacks] at hfield
    exact .inr ⟨heq, hnone, lacks_iff.2 hfield.nil_eq.symm⟩

/-- A written record is an object with its fields. -/
theorem heldBy_encode (entry : KeyRecord) : ∃ members, ObjectText members entry.encode ∧ entry.HeldBy members := by
  have hobject : ObjectText (entry.jsonMembers.map fun m => (m.name, m.value)) entry.encode := by
    refine ⟨entry.jsonMembers.map Member.found, Value.named?_found _, ?_⟩
    rw [encode_eq_objectText]
    exact Value.parse?_eq_some_iff.1 (Value.parse?_objectText _)
  exact ⟨_, hobject, (decode?_eq_some_iff hobject).1 (decode?_encode entry)⟩

/-! ### What is refused -/

/-- Members that no record has: a field twice, none of a field that has to be there, or a value of another kind. -/
inductive Spoiled (members : List (String × Value)) : Prop
  | repeated (field : DocumentField) (h : 2 ≤ members.countP fun member => member.1 = field.name)
  | missing (field : DocumentField) (hne : field ≠ .notValidAfter) (h : Lacks members field.name)
  | mistyped (field : DocumentField) (value : Value) (hmem : (field.name, value) ∈ members)
      (h : ¬field.HasType value)

private theorem Shows.hasType {field : DocumentField} {value : Value} (h : entry.Shows field value) :
    field.HasType value := by
  have htext {text : String} (h : value.text? = some text) : ∃ pieces, value = .text pieces := by
    cases value with
    | text pieces => exact ⟨pieces, rfl⟩
    | _ => cases h
  cases field with
  | key => exact htext h
  | data =>
    obtain ⟨text, h, -⟩ := h
    exact htext h
  | createdAt =>
    obtain ⟨text, h, -⟩ := h
    exact htext h
  | notValidAfter =>
    rw [Shows] at h
    split at h
    next => exact .inl h
    next =>
      obtain ⟨text, h, -⟩ := h
      exact .inr (htext h)
  | burnAfterReading => exact ⟨_, h⟩

theorem Spoiled.not_heldBy (h : Spoiled members) : ¬entry.HeldBy members := by
  intro hheld
  cases h with
  | repeated field h =>
    rw [List.countP_eq_length_filter] at h
    rcases hheld field with ⟨value, hsole, -⟩ | ⟨-, -, hlacks⟩
    · rw [Sole] at hsole
      rw [hsole] at h
      simp at h
    · rw [lacks_iff.1 hlacks] at h
      simp at h
  | missing field hne h =>
    rcases hheld field with ⟨value, hsole, -⟩ | ⟨heq, -⟩
    · rw [Sole, lacks_iff.1 h] at hsole
      cases hsole
    · exact hne heq
  | mistyped field value hmem h =>
    have hfound : (field.name, value) ∈ members.filter fun member => member.1 = field.name := by
      simp [hmem]
    rcases hheld field with ⟨value', hsole, hshows⟩ | ⟨-, -, hlacks⟩
    · rw [Sole] at hsole
      rw [hsole, List.mem_singleton, Prod.mk.injEq] at hfound
      exact h (hfound.2 ▸ hshows.hasType)
    · rw [lacks_iff.1 hlacks] at hfound
      cases hfound

/-- Only objects and arrays of five values are read. -/
theorem objectText_of_decode? (h : decode? text = some entry) :
    (∃ members, ObjectText members text) ∨
      ∃ items, items.length = DocumentField.names.length ∧ SpellsTokens (Value.array items).tokens text := by
  simp only [decode?, Option.bind_eq_bind] at h
  obtain ⟨value, hvalue, h⟩ := Option.bind_eq_some_iff.1 h
  obtain ⟨fields, hfields, -⟩ := Option.bind_eq_some_iff.1 h
  have htokens := Value.parse?_eq_some_iff.1 hvalue
  cases value with
  | array items =>
    simp only [Value.fields?] at hfields
    split at hfields
    next hlength => exact .inr ⟨items, hlength, htokens⟩
    next => cases hfields
  | object pieces =>
    obtain ⟨members, hnamed, -⟩ := Option.bind_eq_some_iff.1 hfields
    exact .inl ⟨members, pieces, hnamed, htokens⟩
  | _ => cases hfields

/-- An object is read as a record exactly if it has each field of the record once, whatever the order of its members,
the white space and the members of other names; so is what is written for the record.  An object that repeats a field,
lacks one that has to be there or has a value of another kind for one is refused, as is anything but white space after
an object, and nothing but an object or an array of five values is read. -/
theorem decodes_by_fields :
    (∀ members text (entry : KeyRecord), ObjectText members text →
      (decode? text = some entry ↔ entry.HeldBy members)) ∧
    (∀ members members' text text', ObjectText members text → ObjectText members' text' →
      (members.filter fun member => member.1 ∈ DocumentField.names).Perm
        (members'.filter fun member => member.1 ∈ DocumentField.names) → decode? text = decode? text') ∧
    (∀ entry : KeyRecord, ∃ members, ObjectText members entry.encode ∧ entry.HeldBy members) ∧
    (∀ members text, ObjectText members text → Spoiled members → decode? text = none) ∧
    (∀ members text rest, ObjectText members text → ¬Blank rest → decode? (text ++ rest) = none) ∧
    ∀ text entry, decode? text = some entry → (∃ members, ObjectText members text) ∨
      ∃ items, items.length = DocumentField.names.length ∧ SpellsTokens (Value.array items).tokens text := by
  refine ⟨?_, ?_, heldBy_encode, ?_, ?_, ?_⟩
  · intro members text entry h
    exact decode?_eq_some_iff h
  · intro members members' text text' h h' hp
    apply Option.ext
    intro entry
    rw [decode?_eq_some_iff h, decode?_eq_some_iff h']
    exact ⟨fun hheld => hheld.congr hp, fun hheld => hheld.congr hp.symm⟩
  · intro members text h hspoiled
    rw [Option.eq_none_iff_forall_ne_some]
    intro entry hdecode
    exact hspoiled.not_heldBy ((decode?_eq_some_iff h).1 hdecode)
  · rintro members text rest ⟨pieces, -, htokens⟩ hrest
    rw [Option.eq_none_iff_forall_ne_some]
    intro entry hdecode
    simp only [decode?, Option.bind_eq_bind] at hdecode
    obtain ⟨value, hvalue, -⟩ := Option.bind_eq_some_iff.1 hdecode
    exact hrest (Value.parse?_append htokens hvalue)
  · intro text entry h
    exact objectText_of_decode? h

/-- A document in another order with white space, an escaped name, a time in another zone, two members of one other name
and no end of the validity; the same fields by themselves; the first with a comma behind it; and one with a field
twice. -/
theorem decodes_by_fields_shuffled :
    let text := utf8 ("\x7b \"x\":[1,\x7b\"y\" :[null,-0.5e+3,\"\\ud800\"]\x7d ],\"burn_after_reading\":true,\n" ++
      "\"\\u006bey\": \"n/é\",\"data\":\"AP8=\",\"created_at\":\"2024-01-01 01:00:00+01:00\" , \"x\":\x7b\x7d\x7d ")
    let plain := utf8 ("\x7b\"key\":\"n/é\",\"data\":\"AP8=\",\"created_at\":\"2024-01-01 01:00:00+01:00\"," ++
      "\"burn_after_reading\":true\x7d")
    let twice := utf8 "\x7b\"key\":\"a\",\"key\":\"a\"\x7d"
    let created : Instant := ⟨1704067200, 0, by decide, by decide, by decide, by decide⟩
    let entry : KeyRecord := ⟨"n/é", ⟨[0, 255], ⟨created, none, true⟩⟩⟩
    decode? text = some entry ∧ decode? text = decode? plain ∧ decode? (text ++ utf8 ",") = none ∧
      decode? twice = none ∧ ((∃ members, ObjectText members text) ∨
        ∃ items, items.length = DocumentField.names.length ∧ SpellsTokens (Value.array items).tokens text) := by
  intro text plain twice instant entry
  let spelled (text : String) : List Piece := Piece.pieces (utf8 text)
  let other : Value := .array [.number, .object [(spelled "y", .array [.null, .number, .text [.unit 0xD800]])]]
  let key : String × Value := ("key", .text (spelled "n/é"))
  let data : String × Value := ("data", .text (spelled "AP8="))
  let created : String × Value := ("created_at", .text (spelled "2024-01-01 01:00:00+01:00"))
  let burn : String × Value := ("burn_after_reading", .bool true)
  let members : List (String × Value) := [("x", other), burn, key, data, created, ("x", .object [])]
  have hescaped : Piece.text? [.unit 0x6B, .byte 0x65, .byte 0x79] = some "key" := by decide +kernel
  have htext : ObjectText members text := by
    refine ⟨[(spelled "x", other), (spelled burn.1, burn.2), ([.unit 0x6B, .byte 0x65, .byte 0x79], key.2),
      (spelled data.1, data.2), (spelled created.1, created.2), (spelled "x", .object [])], ?_, ?_⟩
    · simp [Value.named?, List.mapM_cons, hescaped, spelled, members, key]
    · exact tokens?_eq_some_iff.1 (by decide +kernel)
  have hplain : ObjectText [key, data, created, burn] plain := by
    refine ⟨[(spelled key.1, key.2), (spelled data.1, data.2), (spelled created.1, created.2),
      (spelled burn.1, burn.2)], ?_, ?_⟩
    · simp [Value.named?, List.mapM_cons, spelled]
    · exact tokens?_eq_some_iff.1 (by decide +kernel)
  have htwice : ObjectText [("key", .text (spelled "a")), ("key", .text (spelled "a"))] twice := by
    refine ⟨[(spelled "key", .text (spelled "a")), (spelled "key", .text (spelled "a"))], ?_, ?_⟩
    · simp [Value.named?, List.mapM_cons, spelled]
    · exact tokens?_eq_some_iff.1 (by decide +kernel)
  have hheld : entry.HeldBy members := by
    intro field
    cases field with
    | key => exact .inl ⟨key.2, rfl, Piece.text?_pieces _⟩
    | data => exact .inl ⟨data.2, rfl, "AP8=", Piece.text?_pieces _, by decide +kernel⟩
    | createdAt => exact .inl ⟨created.2, rfl, "2024-01-01 01:00:00+01:00", Piece.text?_pieces _, by decide +kernel⟩
    | notValidAfter => exact .inr ⟨rfl, rfl, by simp [Lacks, members, DocumentField.name, key, data, created, burn]⟩
    | burnAfterReading => exact .inl ⟨burn.2, rfl, rfl⟩
  obtain ⟨hiff, hlayout, -, hspoiled, hbehind, honly⟩ := decodes_by_fields
  have hdecode := (hiff members text entry htext).2 hheld
  refine ⟨hdecode, ?_, ?_, ?_, honly text entry hdecode⟩
  · have hp : ([burn] ++ [key, data, created]).Perm ([key, data, created] ++ [burn]) := List.perm_append_comm
    exact hlayout _ _ text plain htext hplain hp
  · refine hbehind members text _ htext fun hblank => ?_
    have hcomma := hblank 0x2C (by decide +kernel)
    cases hcomma
  · exact hspoiled _ twice htwice (.repeated .key (Nat.le_refl 2))

end KeyRecord

end RoutedCache

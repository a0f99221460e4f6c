import RoutedCache.Bytes

/-!
# UTF-8 forms

A text is recovered from its UTF-8 form, and the UTF-8 form of a text of ASCII characters has one byte for each
of them (`utf8_ofList`).  Texts stand in the order of their UTF-8 forms (`utf8_lt_iff`), so that whatever is sorted
by texts is sorted byte by byte, and one text begins with another if its UTF-8 form does (`utf8_prefix_iff`).
-/

namespace RoutedCache

@[simp] theorem Bytes.text?_utf8 (s : String) : (utf8 s).text? = some s := by
  show String.fromUTF8? ⟨s.toUTF8.data.toList.toArray⟩ = some s
  rw [Array.toArray_toList]
  exact dif_pos s.isValidUTF8

theorem utf8_append (s t : String) : utf8 (s ++ t) = utf8 s ++ utf8 t := by
  simp [utf8]

private theorem utf8_asciiChar : ∀ n : Fin 128, utf8 (String.singleton (Char.ofNat n)) = [n.val.toUInt8] := by
  decide

/-- The UTF-8 form of a text of ASCII characters. -/
theorem utf8_ofList {cs : List Char} (h : ∀ c ∈ cs, c.toNat < 128) :
    utf8 (String.ofList cs) = asciiBytes cs := by
  induction cs with
  | nil => rfl
  | cons c cs ih =>
    have hc := utf8_asciiChar ⟨c.toNat, h c (by simp)⟩
    rw [Char.ofNat_toNat] at hc
    rw [String.ofList_cons, utf8_append, ih (fun d hd => h d (List.mem_cons_of_mem _ hd)), hc]
    rfl

/-! ### The order of texts -/

theorem utf8_eq_flatMap (s : String) : utf8 s = s.toList.flatMap String.utf8EncodeChar := by
  have h : s.toByteArray = (s.toList.flatMap String.utf8EncodeChar).toByteArray := by
    conv => lhs; rw [← String.ofList_toList (s := s)]
    rfl
  rw [utf8, String.toUTF8_eq_toByteArray, h, List.data_toByteArray]

/-- The form of a lower character is lower at the first byte at which the forms differ. -/
private theorem utf8EncodeChar_lt {c d : Char} (h : c < d) (s t : Bytes) :
    String.utf8EncodeChar c ++ s < String.utf8EncodeChar d ++ t := by
  have hlt : c.val.toNat < d.val.toNat := UInt32.lt_iff_toNat_lt.1 h
  have hd : d.val.toNat < 0x110000 := by
    have hvalid : d.val.isValidChar := d.valid
    unfold UInt32.isValidChar Nat.isValidChar at hvalid
    omega
  have hbyte {i j : Nat} (hi : i < 256) (hj : j < 256) :
      (UInt8.ofNat i < UInt8.ofNat j ↔ i < j) ∧ (UInt8.ofNat i = UInt8.ofNat j ↔ i = j) := by
    rw [UInt8.lt_iff_toNat_lt, ← UInt8.toNat_inj, UInt8.toNat_ofNat', UInt8.toNat_ofNat', Nat.mod_eq_of_lt hi,
      Nat.mod_eq_of_lt hj]
    exact ⟨Iff.rfl, Iff.rfl⟩
  unfold String.utf8EncodeChar
  generalize c.val.toNat = m at hlt
  generalize d.val.toNat = n at hlt hd
  -- To the base 64, the number of the lower character is lower at the first digit that differs.
  have hdigits : m / 262144 < n / 262144 ∨ m / 262144 = n / 262144 ∧ (m / 4096 % 64 < n / 4096 % 64 ∨
      m / 4096 % 64 = n / 4096 % 64 ∧ (m / 64 % 64 < n / 64 % 64 ∨
        m / 64 % 64 = n / 64 % 64 ∧ m % 64 < n % 64)) := by
    by_cases h3 : m / 262144 = n / 262144
    · by_cases h2 : m / 4096 = n / 4096
      · by_cases h1 : m / 64 = n / 64 <;> omega
      · omega
    · omega
  have hfirst : m / 262144 % 8 = m / 262144 ∧ n / 262144 % 8 = n / 262144 := by
    constructor <;> exact Nat.mod_eq_of_lt (by omega)
  dsimp only
  split <;> split <;> (try split) <;> (try split) <;> (try split) <;> (try split) <;>
    simp (disch := omega) only [List.cons_append, List.nil_append, List.cons_lt_cons_iff, hbyte] <;> omega

private theorem flatMap_utf8EncodeChar_lt {l r : List Char} (h : l < r) :
    l.flatMap String.utf8EncodeChar < r.flatMap String.utf8EncodeChar := by
  induction h with
  | @nil d r =>
    have hne : String.utf8EncodeChar d ≠ [] := by
      intro hnil
      have hlength := congrArg List.length hnil
      rw [String.length_utf8EncodeChar] at hlength
      exact absurd hlength (Nat.pos_iff_ne_zero.1 d.utf8Size_pos)
    obtain ⟨b, bytes, heq⟩ := List.exists_cons_of_ne_nil hne
    rw [List.flatMap_cons, heq]
    exact List.nil_lt_cons b _
  | rel h =>
    rw [List.flatMap_cons, List.flatMap_cons]
    exact utf8EncodeChar_lt h _ _
  | cons h ih =>
    rw [List.flatMap_cons, List.flatMap_cons]
    exact List.append_left_lt ih

/-- The order of texts is that of their UTF-8 forms, byte by byte. -/
theorem utf8_lt_iff {a b : String} : utf8 a < utf8 b ↔ a < b := by
  have hlt {s t : String} (h : s < t) : utf8 s < utf8 t := by
    rw [utf8_eq_flatMap, utf8_eq_flatMap]
    exact flatMap_utf8EncodeChar_lt h
  constructor
  · intro h
    by_cases hab : a < b
    · exact hab
    · by_cases hba : b < a
      · exact absurd (hlt hba) (List.lt_asymm h)
      · have heq : a = b := String.le_antisymm (String.not_lt.1 hba) (String.not_lt.1 hab)
        rw [heq] at h
        exact absurd h (List.lt_irrefl _)
  · exact hlt

/-! ### Beginnings of texts -/

/-- The form of a character is no beginning of the form of another one. -/
private theorem utf8EncodeChar_append_inj {c d : Char} {s t : Bytes}
    (h : String.utf8EncodeChar c ++ s = String.utf8EncodeChar d ++ t) : c = d ∧ s = t := by
  have hcd : c = d := by
    by_cases hlt : c < d
    · have hbytes := utf8EncodeChar_lt hlt s t
      rw [h] at hbytes
      exact absurd hbytes (List.lt_irrefl _)
    · by_cases hgt : d < c
      · have hbytes := utf8EncodeChar_lt hgt t s
        rw [h] at hbytes
        exact absurd hbytes (List.lt_irrefl _)
      · exact Char.le_antisymm (Char.not_lt.1 hgt) (Char.not_lt.1 hlt)
  subst hcd
  exact ⟨rfl, List.append_cancel_left h⟩

private theorem flatMap_utf8EncodeChar_prefix {l r : List Char}
    (h : l.flatMap String.utf8EncodeChar <+: r.flatMap String.utf8EncodeChar) : l <+: r := by
  induction l generalizing r with
  | nil => exact List.nil_prefix
  | cons c l ih =>
    obtain ⟨rest, hrest⟩ := h
    rw [List.flatMap_cons, List.append_assoc] at hrest
    cases r with
    | nil =>
      have hlength := congrArg List.length hrest
      have hpos := c.utf8Size_pos
      simp only [List.flatMap_nil, List.length_append, List.length_nil, String.length_utf8EncodeChar] at hlength
      omega
    | cons d r =>
      rw [List.flatMap_cons] at hrest
      obtain ⟨rfl, htail⟩ := utf8EncodeChar_append_inj hrest
      rw [List.cons_prefix_cons]
      exact ⟨rfl, ih ⟨rest, htail⟩⟩

/-- A text begins with another one exactly if its UTF-8 form does, byte by byte. -/
theorem utf8_prefix_iff {a b : String} : utf8 a <+: utf8 b ↔ a.toList <+: b.toList := by
  rw [utf8_eq_flatMap, utf8_eq_flatMap]
  constructor
  · intro h
    exact flatMap_utf8EncodeChar_prefix h
  · rintro ⟨rest, hrest⟩
    rw [← hrest, List.flatMap_append]
    exact List.prefix_append _ _

end RoutedCache

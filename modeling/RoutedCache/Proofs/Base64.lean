import RoutedCache.Base64

/-!
# The base64 round trip

The decoder undoes the encoder on every list of bytes (`decode?_encode`), group by group, and what is written is
ASCII (`toNat_lt_of_mem_encode`).  It accepts nothing else (`decode?_eq_some_iff`): a letter is known by its value, and
with its unused bits at zero each group is the one that is written for its bytes.
-/

namespace RoutedCache.Base64

private theorem letter_table :
    ∀ v : Fin 64, value? (letter v) = some v.val ∧ letter v ≠ pad ∧ (letter v).toNat < 128 := by
  decide

theorem value?_letter {v : Nat} (h : v < 64) : value? (letter v) = some v := (letter_table ⟨v, h⟩).1

theorem letter_ne_pad {v : Nat} (h : v < 64) : letter v ≠ pad := (letter_table ⟨v, h⟩).2.1

private theorem toNat_letter_lt {v : Nat} (h : v < 64) : (letter v).toNat < 128 := (letter_table ⟨v, h⟩).2.2

/-! ### One group -/

private theorem toUInt8_eq {n : Nat} {a : UInt8} (h : n = a.toNat) : n.toUInt8 = a := by
  rw [h]; exact UInt8.ofNat_toNat

private theorem decodeOne?_letters (a : UInt8) :
    decodeOne? (letter (a.toNat / 4)) (letter (a.toNat % 4 * 16)) = some [a] := by
  have ha := a.toNat_lt
  simp only [decodeOne?, value?_letter (show a.toNat / 4 < 64 by omega),
    value?_letter (show a.toNat % 4 * 16 < 64 by omega), Option.bind_eq_bind, Option.bind_some]
  rw [if_pos (by omega), toUInt8_eq (show a.toNat / 4 * 4 + a.toNat % 4 * 16 / 16 = a.toNat by omega)]

private theorem decodeTwo?_letters (a b : UInt8) :
    decodeTwo? (letter (a.toNat / 4)) (letter (a.toNat % 4 * 16 + b.toNat / 16)) (letter (b.toNat % 16 * 4)) =
      some [a, b] := by
  have ha := a.toNat_lt
  have hb := b.toNat_lt
  simp only [decodeTwo?, value?_letter (show a.toNat / 4 < 64 by omega),
    value?_letter (show a.toNat % 4 * 16 + b.toNat / 16 < 64 by omega),
    value?_letter (show b.toNat % 16 * 4 < 64 by omega), Option.bind_eq_bind, Option.bind_some]
  rw [if_pos (by omega), toUInt8_eq (a := a) (by omega), toUInt8_eq (a := b) (by omega)]

private theorem decodeThree?_letters (a b c : UInt8) :
    decodeThree? (letter (a.toNat / 4)) (letter (a.toNat % 4 * 16 + b.toNat / 16))
      (letter (b.toNat % 16 * 4 + c.toNat / 64)) (letter (c.toNat % 64)) = some [a, b, c] := by
  have ha := a.toNat_lt
  have hb := b.toNat_lt
  have hc := c.toNat_lt
  simp only [decodeThree?, value?_letter (show a.toNat / 4 < 64 by omega),
    value?_letter (show a.toNat % 4 * 16 + b.toNat / 16 < 64 by omega),
    value?_letter (show b.toNat % 16 * 4 + c.toNat / 64 < 64 by omega),
    value?_letter (show c.toNat % 64 < 64 by omega), Option.bind_eq_bind, Option.bind_some]
  rw [toUInt8_eq (a := a) (by omega), toUInt8_eq (a := b) (by omega), toUInt8_eq (a := c) (by omega)]

/-- A full group is read by itself, whatever follows. -/
private theorem decode?_group {p q r s : UInt8} (hs : s ≠ pad) (rest : Bytes) :
    decode? (p :: q :: r :: s :: rest) = (decodeThree? p q r s).bind fun group =>
      (decode? rest).bind fun bytes => some (group ++ bytes) := by
  cases rest with
  | nil =>
    simp only [decode?, if_neg hs]
    cases decodeThree? p q r s <;> simp
  | cons t rest => simp only [decode?, Option.bind_eq_bind]

/-! ### All groups -/

/-- The decoder undoes the encoder. -/
theorem decode?_encode (bytes : Bytes) : decode? (encode bytes) = some bytes := by
  induction bytes using encode.induct with
  | case1 => rfl
  | case2 a =>
    simp only [encode, decode?, ↓reduceIte]
    exact decodeOne?_letters a
  | case3 a b =>
    have hb := b.toNat_lt
    simp only [encode, decode?, ↓reduceIte, letter_ne_pad (show b.toNat % 16 * 4 < 64 by omega)]
    exact decodeTwo?_letters a b
  | case4 a b c rest ih =>
    rw [encode, decode?_group (letter_ne_pad (by omega)), decodeThree?_letters, ih]
    rfl

theorem toNat_lt_of_mem_encode {bytes : Bytes} {b : UInt8} (h : b ∈ encode bytes) : b.toNat < 128 := by
  have hpad : pad.toNat < 128 := by decide
  induction bytes using encode.induct with
  | case1 => simp [encode] at h
  | case2 a =>
    have ha := a.toNat_lt
    simp only [encode, List.mem_cons, List.not_mem_nil, or_false] at h
    rcases h with rfl | rfl | rfl | rfl
    · exact toNat_letter_lt (by omega)
    · exact toNat_letter_lt (by omega)
    · exact hpad
    · exact hpad
  | case3 a b' =>
    have ha := a.toNat_lt
    have hb := b'.toNat_lt
    simp only [encode, List.mem_cons, List.not_mem_nil, or_false] at h
    rcases h with rfl | rfl | rfl | rfl
    · exact toNat_letter_lt (by omega)
    · exact toNat_letter_lt (by omega)
    · exact toNat_letter_lt (by omega)
    · exact hpad
  | case4 a b' c rest ih =>
    have ha := a.toNat_lt
    have hb := b'.toNat_lt
    have hc := c.toNat_lt
    simp only [encode, List.mem_cons] at h
    rcases h with rfl | rfl | rfl | rfl | h
    · exact toNat_letter_lt (by omega)
    · exact toNat_letter_lt (by omega)
    · exact toNat_letter_lt (by omega)
    · exact toNat_letter_lt (by omega)
    · exact ih h

/-! ### What is accepted -/

private theorem value?_table :
    ∀ n : Fin 256, (value? n.val.toUInt8).all fun v => decide (v < 64 ∧ letter v = n.val.toUInt8) := by
  decide +kernel

theorem eq_letter_of_value? {p : UInt8} {v : Nat} (h : value? p = some v) : v < 64 ∧ p = letter v := by
  have htable := value?_table ⟨p.toNat, p.toNat_lt⟩
  simp only [Nat.toUInt8, UInt8.ofNat_toNat, h, Option.all_some, decide_eq_true_eq] at htable
  exact ⟨htable.1, htable.2.symm⟩

private theorem toNat_toUInt8 {n : Nat} (h : n < 256) : n.toUInt8.toNat = n := UInt8.toNat_ofNat_of_lt' h

private theorem decodeOne?_eq_some {p q : UInt8} {bytes : Bytes} (h : decodeOne? p q = some bytes) :
    [p, q, pad, pad] = encode bytes := by
  simp only [decodeOne?, Option.bind_eq_bind, Option.bind_eq_some_iff] at h
  obtain ⟨x, hx, y, hy, h⟩ := h
  obtain ⟨hx, rfl⟩ := eq_letter_of_value? hx
  obtain ⟨hy, rfl⟩ := eq_letter_of_value? hy
  split at h
  next hunused =>
    cases h
    simp only [encode, toNat_toUInt8 (show x * 4 + y / 16 < 256 by omega)]
    rw [show (x * 4 + y / 16) / 4 = x by omega, show (x * 4 + y / 16) % 4 * 16 = y by omega]
  next => cases h

private theorem decodeTwo?_eq_some {p q r : UInt8} {bytes : Bytes} (h : decodeTwo? p q r = some bytes) :
    [p, q, r, pad] = encode bytes := by
  simp only [decodeTwo?, Option.bind_eq_bind, Option.bind_eq_some_iff] at h
  obtain ⟨x, hx, y, hy, z, hz, h⟩ := h
  obtain ⟨hx, rfl⟩ := eq_letter_of_value? hx
  obtain ⟨hy, rfl⟩ := eq_letter_of_value? hy
  obtain ⟨hz, rfl⟩ := eq_letter_of_value? hz
  split at h
  next hunused =>
    cases h
    simp only [encode, toNat_toUInt8 (show x * 4 + y / 16 < 256 by omega),
      toNat_toUInt8 (show y % 16 * 16 + z / 4 < 256 by omega)]
    rw [show (x * 4 + y / 16) / 4 = x by omega,
      show (x * 4 + y / 16) % 4 * 16 + (y % 16 * 16 + z / 4) / 16 = y by omega,
      show (y % 16 * 16 + z / 4) % 16 * 4 = z by omega]
  next => cases h

private theorem decodeThree?_eq_some {p q r s : UInt8} {group : Bytes} (h : decodeThree? p q r s = some group)
    (rest : Bytes) : p :: q :: r :: s :: encode rest = encode (group ++ rest) := by
  simp only [decodeThree?, Option.bind_eq_bind, Option.bind_eq_some_iff] at h
  obtain ⟨x, hx, y, hy, z, hz, w, hw, h⟩ := h
  obtain ⟨hx, rfl⟩ := eq_letter_of_value? hx
  obtain ⟨hy, rfl⟩ := eq_letter_of_value? hy
  obtain ⟨hz, rfl⟩ := eq_letter_of_value? hz
  obtain ⟨hw, rfl⟩ := eq_letter_of_value? hw
  cases h
  simp only [List.cons_append, List.nil_append, encode, toNat_toUInt8 (show x * 4 + y / 16 < 256 by omega),
    toNat_toUInt8 (show y % 16 * 16 + z / 4 < 256 by omega), toNat_toUInt8 (show z % 4 * 64 + w < 256 by omega)]
  rw [show (x * 4 + y / 16) / 4 = x by omega,
    show (x * 4 + y / 16) % 4 * 16 + (y % 16 * 16 + z / 4) / 16 = y by omega,
    show (y % 16 * 16 + z / 4) % 16 * 4 + (z % 4 * 64 + w) / 64 = z by omega,
    show (z % 4 * 64 + w) % 64 = w by omega]

/-- What the decoder accepts is what the encoder writes. -/
theorem eq_encode_of_decode? {text bytes : Bytes} (h : decode? text = some bytes) : text = encode bytes := by
  induction text using decode?.induct generalizing bytes with
  | case1 =>
    cases h
    rfl
  | case2 p q =>
    simp only [decode?, ↓reduceIte] at h
    exact decodeOne?_eq_some h
  | case3 p q r hr =>
    simp only [decode?, ↓reduceIte, if_neg hr] at h
    exact decodeTwo?_eq_some h
  | case4 p q r s hs =>
    simp only [decode?, if_neg hs] at h
    exact (decodeThree?_eq_some h []).trans (by rw [List.append_nil])
  | case5 p q r s rest hne ih =>
    simp only [decode?, Option.bind_eq_bind, Option.bind_eq_some_iff] at h
    obtain ⟨group, hgroup, bytes', hrest, h⟩ := h
    cases h
    rw [ih hrest]
    exact decodeThree?_eq_some hgroup bytes'
  | case6 text hnil hfour hmore =>
    rw [decode?.eq_4 text hnil hfour hmore] at h
    cases h

/-- The accepted texts are the written ones. -/
theorem decode?_eq_some_iff {text bytes : Bytes} : decode? text = some bytes ↔ text = encode bytes :=
  ⟨eq_encode_of_decode?, fun h => h ▸ decode?_encode bytes⟩

end RoutedCache.Base64

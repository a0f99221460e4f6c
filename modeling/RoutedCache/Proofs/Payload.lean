import Mathlib.Algebra.Group.Nat.Defs
import RoutedCache.Proofs.Document

/-!
# The one text of a payload

A payload is written as base64: its bits, eight for each byte, are those of its letters, six for each letter, and the
last letters are filled up with zeros and pads (`Base64.Spells`).  The number of pads hangs on the number of bytes alone
and letters on their bits, so that no other text is base64 for the same bytes (`Base64.eq_encode_iff_spells`).  The
reader accepts this text and no other one (`Json.Value.payload_canonical`).
-/

namespace RoutedCache

namespace Base64

/-! ### The bits -/

/-- The last bits of a number, the highest one first. -/
def bits : Nat → Nat → List Bool
  | 0, _ => []
  | count + 1, n => decide (n / 2 ^ count % 2 = 1) :: bits count n

theorem length_bits (count n : Nat) : (bits count n).length = count := by
  induction count with
  | zero => rfl
  | succ count ih => rw [bits, List.length_cons, ih]

theorem bits_zero (count : Nat) : bits count 0 = List.replicate count false := by
  induction count with
  | zero => rfl
  | succ count ih =>
    rw [bits, ih, List.replicate_succ]
    simp

private theorem bits_mod (count k n : Nat) : bits count (n % 2 ^ (count + k)) = bits count n := by
  induction count generalizing k with
  | zero => rfl
  | succ count ih =>
    rw [bits, bits, show count + 1 + k = count + (k + 1) by omega, ih]
    congr 2
    rw [Nat.pow_add, Nat.mod_mul_right_div_self, Nat.pow_succ, Nat.mod_mul_left_mod]

/-- A number with its last bits apart. -/
theorem bits_add (high low n : Nat) : bits (high + low) n = bits high (n / 2 ^ low) ++ bits low (n % 2 ^ low) := by
  induction high with
  | zero => rw [Nat.zero_add, bits, List.nil_append, ← bits_mod low 0, Nat.add_zero]
  | succ high ih =>
    rw [Nat.succ_add, bits, bits, ih, List.cons_append, Nat.div_div_eq_div_mul, ← Nat.pow_add, Nat.add_comm low]

private theorem bits_join (high low m : Nat) {n : Nat} (h : n < 2 ^ low) :
    bits (high + low) (m * 2 ^ low + n) = bits high m ++ bits low n := by
  have hdiv : (m * 2 ^ low + n) / 2 ^ low = m := by
    rw [Nat.add_comm, Nat.add_mul_div_right _ _ (Nat.two_pow_pos low), Nat.div_eq_of_lt h, Nat.zero_add]
  rw [bits_add, hdiv, Nat.mul_add_mod_of_lt h]

/-- A number is its bits. -/
theorem bits_injective (count : Nat) {m n : Nat} (hm : m < 2 ^ count) (hn : n < 2 ^ count)
    (h : bits count m = bits count n) : m = n := by
  induction count generalizing m n with
  | zero =>
    rw [Nat.pow_zero] at hm hn
    omega
  | succ count ih =>
    have hsplit (k : Nat) : bits (count + 1) k = bits count (k / 2) ++ bits 1 (k % 2) := bits_add count 1 k
    rw [hsplit, hsplit] at h
    obtain ⟨hhigh, hlow⟩ := List.append_inj h (by rw [length_bits, length_bits])
    have hdiv := ih (m := m / 2) (n := n / 2) (by omega) (by omega) hhigh
    simp [bits] at hlow
    omega

/-- The bits of letters with these values. -/
def letterBits (values : List Nat) : List Bool := values.flatMap (bits 6)

def byteBits (bytes : Bytes) : List Bool := bytes.flatMap fun b => bits 8 b.toNat

/-- Letters whose bits are those of the bytes and two unused ones for each pad, all of them zero, where the pads fill
the last four letters up. -/
structure Spells (text bytes : Bytes) (values : List Nat) (pads : Nat) : Prop where
  text_eq : text = values.map letter ++ List.replicate pads pad
  lt : ∀ v ∈ values, v < 64
  full : (values.length + pads) % 4 = 0
  pads_le : pads ≤ 2
  bits_eq : letterBits values = byteBits bytes ++ List.replicate (2 * pads) false

theorem length_letterBits (values : List Nat) : (letterBits values).length = 6 * values.length := by
  induction values with
  | nil => rfl
  | cons v values ih =>
    rw [letterBits, List.flatMap_cons, List.length_append, length_bits, List.length_cons]
    rw [letterBits] at ih
    omega

theorem length_byteBits (bytes : Bytes) : (byteBits bytes).length = 8 * bytes.length := by
  induction bytes with
  | nil => rfl
  | cons b bytes ih =>
    rw [byteBits, List.flatMap_cons, List.length_append, length_bits, List.length_cons]
    rw [byteBits] at ih
    omega

/-! ### Groups of letters -/

private theorem bits_first (n : Nat) : bits 8 n = bits 6 (n / 4) ++ bits 2 (n % 4) := bits_add 6 2 n

private theorem bits_middle (n : Nat) : bits 8 n = bits 4 (n / 16) ++ bits 4 (n % 16) := bits_add 4 4 n

private theorem bits_last (n : Nat) : bits 8 n = bits 2 (n / 64) ++ bits 6 (n % 64) := bits_add 2 6 n

private theorem bits_second (m : Nat) {n : Nat} (h : n < 16) : bits 6 (m * 16 + n) = bits 2 m ++ bits 4 n :=
  bits_join 2 4 m h

private theorem bits_third (m : Nat) {n : Nat} (h : n < 4) : bits 6 (m * 4 + n) = bits 4 m ++ bits 2 n :=
  bits_join 4 2 m h

private theorem letterBits_one (a : UInt8) :
    letterBits [a.toNat / 4, a.toNat % 4 * 16] = bits 8 a.toNat ++ List.replicate 4 false := by
  have hsecond := bits_second (a.toNat % 4) (show 0 < 16 by omega)
  rw [Nat.add_zero] at hsecond
  simp only [letterBits, List.flatMap_cons, List.flatMap_nil, List.append_nil, hsecond, bits_zero, bits_first,
    List.append_assoc]

private theorem letterBits_two (a b : UInt8) :
    letterBits [a.toNat / 4, a.toNat % 4 * 16 + b.toNat / 16, b.toNat % 16 * 4] =
      bits 8 a.toNat ++ (bits 8 b.toNat ++ List.replicate 2 false) := by
  have hb := b.toNat_lt
  have hsecond := bits_second (a.toNat % 4) (show b.toNat / 16 < 16 by omega)
  have hthird := bits_third (b.toNat % 16) (show 0 < 4 by omega)
  rw [Nat.add_zero] at hthird
  simp only [letterBits, List.flatMap_cons, List.flatMap_nil, List.append_nil, hsecond, hthird, bits_zero,
    bits_first a.toNat, bits_middle b.toNat, List.append_assoc]

private theorem letterBits_three (a b c : UInt8) :
    letterBits [a.toNat / 4, a.toNat % 4 * 16 + b.toNat / 16, b.toNat % 16 * 4 + c.toNat / 64, c.toNat % 64] =
      bits 8 a.toNat ++ (bits 8 b.toNat ++ bits 8 c.toNat) := by
  have hb := b.toNat_lt
  have hc := c.toNat_lt
  have hsecond := bits_second (a.toNat % 4) (show b.toNat / 16 < 16 by omega)
  have hthird := bits_third (b.toNat % 16) (show c.toNat / 64 < 4 by omega)
  simp only [letterBits, List.flatMap_cons, List.flatMap_nil, List.append_nil, hsecond, hthird,
    bits_first a.toNat, bits_middle b.toNat, bits_last c.toNat, List.append_assoc]

/-- What is written is base64 for the bytes. -/
theorem spells_encode (bytes : Bytes) : ∃ values pads, Spells (encode bytes) bytes values pads := by
  induction bytes using encode.induct with
  | case1 => exact ⟨[], 0, rfl, fun v hv => absurd hv List.not_mem_nil, rfl, Nat.zero_le 2, rfl⟩
  | case2 a =>
    have ha := a.toNat_lt
    refine ⟨[a.toNat / 4, a.toNat % 4 * 16], 2, rfl, ?_, by simp, Nat.le_refl 2, ?_⟩
    · intro v hv
      simp only [List.mem_cons, List.not_mem_nil, or_false] at hv
      omega
    · rw [letterBits_one, byteBits, List.flatMap_cons, List.flatMap_nil, List.append_nil]
  | case3 a b =>
    have ha := a.toNat_lt
    have hb := b.toNat_lt
    refine ⟨[a.toNat / 4, a.toNat % 4 * 16 + b.toNat / 16, b.toNat % 16 * 4], 1, rfl, ?_, by simp, by omega, ?_⟩
    · intro v hv
      simp only [List.mem_cons, List.not_mem_nil, or_false] at hv
      omega
    · rw [letterBits_two, byteBits, List.flatMap_cons, List.flatMap_cons, List.flatMap_nil, List.append_nil,
        List.append_assoc]
  | case4 a b c rest ih =>
    have ha := a.toNat_lt
    have hb := b.toNat_lt
    have hc := c.toNat_lt
    obtain ⟨values, pads, h⟩ := ih
    refine ⟨[a.toNat / 4, a.toNat % 4 * 16 + b.toNat / 16, b.toNat % 16 * 4 + c.toNat / 64, c.toNat % 64] ++ values,
      pads, ?_, ?_, ?_, h.pads_le, ?_⟩
    · rw [encode, h.text_eq]
      rfl
    · intro v hv
      rcases List.mem_append.1 hv with hv | hv
      · simp only [List.mem_cons, List.not_mem_nil, or_false] at hv
        omega
      · exact h.lt v hv
    · have hfull := h.full
      rw [List.length_append, List.length_cons, List.length_cons, List.length_cons, List.length_cons, List.length_nil]
      omega
    · have hbits := h.bits_eq
      rw [letterBits] at hbits
      rw [letterBits, List.flatMap_append, hbits, ← letterBits, letterBits_three, byteBits, byteBits,
        List.flatMap_cons, List.flatMap_cons, List.flatMap_cons]
      simp only [List.append_assoc]

/-! ### One text for the same bytes -/

theorem letterBits_injective {values other : List Nat} (hv : ∀ v ∈ values, v < 64) (ho : ∀ v ∈ other, v < 64)
    (h : letterBits values = letterBits other) : values = other := by
  induction values generalizing other with
  | nil =>
    have hlength := congrArg List.length h
    rw [length_letterBits, length_letterBits, List.length_nil] at hlength
    exact (List.length_eq_zero_iff.1 (by omega)).symm
  | cons v values ih =>
    cases other with
    | nil =>
      have hlength := congrArg List.length h
      rw [length_letterBits, length_letterBits, List.length_cons, List.length_nil] at hlength
      omega
    | cons w other =>
      rw [letterBits, letterBits, List.flatMap_cons, List.flatMap_cons] at h
      obtain ⟨hfirst, hrest⟩ := List.append_inj h (by rw [length_bits, length_bits])
      rw [List.forall_mem_cons] at hv ho
      rw [bits_injective 6 hv.1 ho.1 hfirst, ih hv.2 ho.2 hrest]

theorem Spells.text_unique {text text' bytes : Bytes} {values values' : List Nat} {pads pads' : Nat}
    (h : Spells text bytes values pads) (h' : Spells text' bytes values' pads') : text = text' := by
  -- six bits for each letter are eight for each byte and two for each pad
  have hcount := congrArg List.length h.bits_eq
  have hcount' := congrArg List.length h'.bits_eq
  rw [length_letterBits, List.length_append, length_byteBits, List.length_replicate] at hcount hcount'
  have hpads : pads = pads' := by
    have := h.pads_le
    have := h'.pads_le
    omega
  subst hpads
  have hvalues := letterBits_injective h.lt h'.lt (h.bits_eq.trans h'.bits_eq.symm)
  rw [h.text_eq, h'.text_eq, hvalues]

/-- The written form is the only base64 text for the bytes. -/
theorem eq_encode_iff_spells {text bytes : Bytes} :
    text = encode bytes ↔ ∃ values pads, Spells text bytes values pads := by
  constructor
  · rintro rfl
    exact spells_encode bytes
  · rintro ⟨values, pads, h⟩
    obtain ⟨values', pads', h'⟩ := spells_encode bytes
    exact h.text_unique h'

end Base64

open Json

/-- A text is read as a payload exactly if it is the text that is written for it, whatever its letters, its pads and
its unused bits; each payload is written as a text, the only base64 for its bytes. -/
theorem Json.Value.payload_canonical :
    (∀ (text : String) (data : Bytes), Base64.decode? (utf8 text) = some data ↔ utf8 text = Base64.encode data) ∧
    (∀ (value : Value) (data : Bytes), value.payload? = some data ↔
      ∃ text, value.text? = some text ∧ utf8 text = Base64.encode data) ∧
    (∀ data : Bytes, ∃ text : String, utf8 text = Base64.encode data) ∧
    ∀ text data : Bytes, text = Base64.encode data ↔
      ∃ values pads, Base64.Spells text data values pads := by
  refine ⟨?_, ?_, Base64.exists_utf8_eq_encode, ?_⟩
  · intro text data
    exact Base64.decode?_eq_some_iff
  · intro value data
    exact payload?_eq_some_iff
  · intro text data
    exact Base64.eq_encode_iff_spells

/-- An unused bit, a missing pad and a third pad. -/
example : Base64.decode? (utf8 "AP8QIA==") = some [0, 255, 16, 32] ∧ Base64.decode? (utf8 "AP8QIB==") = none ∧
    Base64.decode? (utf8 "AP8QIA=") = none ∧ Base64.decode? (utf8 "AP8QI===") = none := by
  decide +kernel

end RoutedCache

import RoutedCache.Text.Blank
import RoutedCache.Text.Digits

/-!
# Reading written digits

`ofDigits` undoes `fixedDigits` on numbers that fit the count and `paddedDigits` on all numbers.  What is
written consists of ASCII digits alone.
-/

namespace RoutedCache

/-- A digit is one of the ten that `digitChar` writes. -/
theorem eq_digitChar_of_isDigit {c : Char} (h : c.isDigit = true) : ∃ d : Fin 10, c = digitChar d := by
  simp only [Char.isDigit, Bool.and_eq_true, decide_eq_true_eq, UInt32.le_iff_toNat_le] at h
  have h0 : ('0' : Char).val.toNat = 48 := by decide
  have h9 : ('9' : Char).val.toNat = 57 := by decide
  have hc : c.val.toNat = c.toNat := rfl
  refine ⟨⟨c.toNat - 48, by omega⟩, ?_⟩
  rw [digitChar, Nat.mod_eq_of_lt (show c.toNat - 48 < 10 by omega),
    show 48 + (c.toNat - 48) = c.toNat by omega,
    Char.ofNat_toNat]

/-- What holds of the ten digits holds of every digit. -/
theorem digit_cases {p : Char → Prop} (h : ∀ d : Fin 10, p (digitChar d)) {c : Char} (hc : c.isDigit = true) :
    p c := by
  obtain ⟨d, rfl⟩ := eq_digitChar_of_isDigit hc
  exact h d

theorem isDigit_digitChar (n : Nat) : (digitChar n).isDigit = true := by
  have : ∀ d : Fin 10, (Char.ofNat (48 + d.val)).isDigit = true := by decide
  exact this ⟨n % 10, by omega⟩

private theorem digitValue_digitChar (n : Nat) : digitValue (digitChar n) = n % 10 := by
  have : ∀ d : Fin 10, digitValue (Char.ofNat (48 + d.val)) = d.val := by decide
  exact this ⟨n % 10, by omega⟩

theorem toNat_lt_of_isDigit {c : Char} (h : c.isDigit = true) : c.toNat < 128 :=
  digit_cases (p := fun c => c.toNat < 128) (by decide) h

theorem isBlank_of_isDigit {c : Char} (h : c.isDigit = true) : isBlank c = false :=
  digit_cases (p := fun c => isBlank c = false) (by decide) h

theorem ofDigits_append (l : List Char) (c : Char) : ofDigits (l ++ [c]) = 10 * ofDigits l + digitValue c := by
  simp [ofDigits]

/-! ### Digits of a fixed count -/

@[simp] theorem length_fixedDigits (count n : Nat) : (fixedDigits count n).length = count := by
  induction count generalizing n with
  | zero => rfl
  | succ count ih => simp [fixedDigits, ih]

theorem isDigit_of_mem_fixedDigits {count n : Nat} {c : Char} (h : c ∈ fixedDigits count n) :
    c.isDigit = true := by
  induction count generalizing n with
  | zero => simp [fixedDigits] at h
  | succ count ih =>
    simp only [fixedDigits, List.mem_append, List.mem_singleton] at h
    rcases h with h | rfl
    · exact ih h
    · exact isDigit_digitChar n

theorem ofDigits_fixedDigits (count n : Nat) : ofDigits (fixedDigits count n) = n % Nat.pow 10 count := by
  induction count generalizing n with
  | zero => simp [fixedDigits, ofDigits, Nat.mod_one]
  | succ count ih =>
    rw [fixedDigits, ofDigits_append, ih, digitValue_digitChar]
    show 10 * (n / 10 % Nat.pow 10 count) + n % 10 = n % (Nat.pow 10 count * 10)
    rw [Nat.mul_comm (Nat.pow 10 count), Nat.mod_mul]
    omega

theorem ofDigits_fixedDigits_of_lt {count n : Nat} (h : n < Nat.pow 10 count) :
    ofDigits (fixedDigits count n) = n := by
  rw [ofDigits_fixedDigits, Nat.mod_eq_of_lt h]

/-! ### Digits up to a width -/

private theorem ofDigits_zeros_append (zeros : Nat) (l : List Char) :
    ofDigits (List.replicate zeros '0' ++ l) = ofDigits l := by
  induction zeros with
  | zero => rfl
  | succ zeros ih =>
    rw [List.replicate_succ, List.cons_append, ← ih]
    rfl

private theorem ofDigits_toDigits (n : Nat) : ofDigits (Nat.toDigits 10 n) = n :=
  Nat.ofDigitChars_toDigits (by decide) (by decide)

theorem ofDigits_paddedDigits (width n : Nat) : ofDigits (paddedDigits width n) = n := by
  rw [paddedDigits, ofDigits_zeros_append, ofDigits_toDigits]

theorem isDigit_of_mem_paddedDigits {width n : Nat} {c : Char} (h : c ∈ paddedDigits width n) :
    c.isDigit = true := by
  simp only [paddedDigits, List.mem_append, List.mem_replicate] at h
  rcases h with ⟨-, rfl⟩ | h
  · decide
  · exact Nat.isDigit_of_mem_toDigits (by decide) (by decide) h

/-- A number that fits the width is written with exactly that many digits. -/
theorem length_paddedDigits {width n : Nat} (hw : 0 < width) (h : n < Nat.pow 10 width) :
    (paddedDigits width n).length = width := by
  have hle := (Nat.length_toDigits_le_iff (b := 10) (by decide) hw).2 h
  simp only [paddedDigits, List.length_append, List.length_replicate]
  omega

theorem paddedDigits_ne_nil (width n : Nat) : paddedDigits width n ≠ [] := by
  simp [paddedDigits, Nat.toDigits_ne_nil]

end RoutedCache

import RoutedCache.Proofs.Text.Digits
import RoutedCache.Proofs.Time.Calendar
import RoutedCache.Time.Reader
import RoutedCache.Time.Text

/-!
# Reading written instants

The reader undoes the writer on every instant (`Instant.read?_toText`).  It could not do so if leap seconds stood in
the middle of a minute (`Instant.timeText_leap`).  Each part of the text has a lemma that reads the part from the front
of a longer text.
-/

namespace RoutedCache.Instant

private def AllDigits (digits : List Char) : Prop := ∀ c ∈ digits, c.isDigit = true

private theorem allDigits_fixedDigits (count n : Nat) : AllDigits (fixedDigits count n) :=
  fun _ => isDigit_of_mem_fixedDigits

private theorem allDigits_paddedDigits (width n : Nat) : AllDigits (paddedDigits width n) :=
  fun _ => isDigit_of_mem_paddedDigits

private theorem skipBlanks_cons {c : Char} (h : isBlank c = false) (s : List Char) :
    skipBlanks (c :: s) = c :: s := by
  simp [skipBlanks, h]

private theorem skipBlanks_digits {digits : List Char} (h : AllDigits digits) (hne : digits ≠ [])
    (rest : List Char) : skipBlanks (digits ++ rest) = digits ++ rest := by
  cases digits with
  | nil => exact absurd rfl hne
  | cons c digits => exact skipBlanks_cons (isBlank_of_isDigit (h c (by simp))) _

private theorem takeWhile_digits {digits : List Char} (h : AllDigits digits) :
    digits.takeWhile Char.isDigit = digits := by
  rw [← List.append_nil digits, List.takeWhile_append_of_pos h]
  rfl

/-! ### Numbers and marks -/

private theorem readNumber_append {width : Nat} {digits : List Char} (h : AllDigits digits)
    (hlen : digits.length = width) (hne : digits ≠ []) (rest : List Char) :
    readNumber width (digits ++ rest) = some (ofDigits digits, rest) := by
  have htake : (digits ++ rest).take width = digits := by rw [← hlen, List.take_left]
  simp only [readNumber, skipBlanks_digits h hne, htake, takeWhile_digits h, List.drop_left]
  rw [if_neg (by simpa using hne)]

private theorem readBetween_append {low high n : Nat} (hlow : low ≤ n) (hhigh : n ≤ high) (hn : n < 100)
    (rest : List Char) : readBetween low high (fixedDigits 2 n ++ rest) = some (n, rest) := by
  have hne : fixedDigits 2 n ≠ [] := List.ne_nil_of_length_eq_add_one (length_fixedDigits 2 n)
  simp only [readBetween, readNumber_append (allDigits_fixedDigits 2 n) (length_fixedDigits 2 n) hne,
    ofDigits_fixedDigits_of_lt (show n < Nat.pow 10 2 from hn), Option.bind_eq_bind, Option.bind_some]
  rw [if_pos ⟨hlow, hhigh⟩]

private theorem readMark_cons {mark : Char} (h : isBlank mark = false) (rest : List Char) :
    readMark mark (mark :: rest) = some ((), rest) := by
  simp [readMark, skipBlanks_cons h]

/-- Digits are read up to a character that is none. -/
private theorem readDigits_append {digits : List Char} (h : AllDigits digits) (hne : digits ≠ []) {c : Char}
    (hc : c.isDigit = false) (rest : List Char) :
    readDigits (digits ++ c :: rest) = some (digits, c :: rest) := by
  have htake : (digits ++ c :: rest).takeWhile Char.isDigit = digits := by
    rw [List.takeWhile_append_of_pos h, List.takeWhile_cons_of_neg (by simp [hc]), List.append_nil]
  simp only [readDigits, htake, List.drop_left]
  rw [if_neg (by simpa using hne)]

/-! ### The date -/

private theorem readYear_signed {sign : Char} {n : Nat} (hsign : sign = '-' ∨ sign = '+') (rest : List Char) :
    readYear (sign :: paddedDigits 4 n ++ '-' :: rest) =
      some (if sign = '-' then -(n : Int) else n, '-' :: rest) := by
  have hread := readDigits_append (allDigits_paddedDigits 4 n) (paddedDigits_ne_nil 4 n)
    (show '-'.isDigit = false by decide) rest
  rcases hsign with rfl | rfl <;>
    simp [readYear, skipBlanks_cons (show isBlank '-' = false by decide),
      skipBlanks_cons (show isBlank '+' = false by decide), hread, ofDigits_paddedDigits]

private theorem readYear_plain {n : Nat} (h : n ≤ 9999) (rest : List Char) :
    readYear (paddedDigits 4 n ++ rest) = some ((n : Int), rest) := by
  have hall := allDigits_paddedDigits 4 n
  have hne := paddedDigits_ne_nil 4 n
  have hread := readNumber_append hall (length_paddedDigits (by decide) (show n < 10000 by omega)) hne rest
  rw [ofDigits_paddedDigits] at hread
  unfold readYear
  rw [skipBlanks_digits hall hne]
  cases hdigits : paddedDigits 4 n with
  | nil => exact absurd hdigits hne
  | cons c digits =>
    rw [hdigits] at hread hall
    have hc : c ≠ '-' ∧ c ≠ '+' :=
      digit_cases (p := fun c => c ≠ '-' ∧ c ≠ '+') (by decide) (hall c (by simp))
    split
    next heq => exact absurd (List.cons.inj heq).1 hc.1
    next heq => exact absurd (List.cons.inj heq).1 hc.2
    next => rw [hread]; rfl

private theorem readYear_yearText (year : Int) (rest : List Char) :
    readYear (yearText year ++ '-' :: rest) = some (year, '-' :: rest) := by
  unfold yearText
  split
  next h =>
    rw [readYear_signed (.inl rfl), if_pos rfl]
    congr 2
    omega
  next h =>
    split
    next h' =>
      rw [readYear_signed (.inr rfl), if_neg (by decide)]
      congr 2
      omega
    next h' =>
      rw [readYear_plain (by omega)]
      congr 2
      omega

private theorem readDate_dateText {date : Date} (hvalid : date.Valid)
    (hmonth : 1 ≤ date.month ∧ date.month ≤ 12)
    (hday : date.day ≤ 31) (hyear : -262143 ≤ date.year ∧ date.year ≤ 262142) (rest : List Char) :
    readDate (dateText date ++ rest) = some (date, rest) := by
  have hmark : isBlank '-' = false := by decide
  simp only [dateText, List.append_assoc, List.cons_append, readDate, readYear_yearText, Option.bind_eq_bind,
    Option.bind_some, readMark_cons hmark,
    readBetween_append hmonth.1 hmonth.2 (show date.month < 100 by omega),
    readBetween_append hvalid.1 hday (show date.day < 100 by omega)]
  rw [if_pos ⟨hvalid, hyear⟩]

/-! ### The time of day -/

private theorem readFraction_digits {count n : Nat} (hcount : 0 < count ∧ count ≤ 9) (hn : n < Nat.pow 10 count)
    (rest : List Char) :
    readFraction ('.' :: fixedDigits count n ++ 'Z' :: rest) =
      some (n * Nat.pow 10 (9 - count), 'Z' :: rest) := by
  have hne : fixedDigits count n ≠ [] := by
    intro h
    have := length_fixedDigits count n
    rw [h] at this
    simp at this
    omega
  have htake : (fixedDigits count n).take 9 = fixedDigits count n := List.take_of_length_le (by simp; omega)
  simp only [List.cons_append, readFraction,
    readDigits_append (allDigits_fixedDigits count n) hne (show 'Z'.isDigit = false by decide),
    Option.bind_eq_bind, Option.bind_some, htake, ofDigits_fixedDigits_of_lt hn, length_fixedDigits]

private theorem readFraction_fractionText {nanos : Nat} (h : nanos < 1000000000) (rest : List Char) :
    readFraction (fractionText nanos ++ 'Z' :: rest) = some (nanos, 'Z' :: rest) := by
  unfold fractionText
  split
  next h0 =>
    subst h0
    rfl
  next =>
    split
    next h6 =>
      rw [readFraction_digits (by decide) (show nanos / 1000000 < 1000 by omega)]
      congr 2
      show nanos / 1000000 * 1000000 = nanos
      omega
    next =>
      split
      next h3 =>
        rw [readFraction_digits (by decide) (show nanos / 1000 < 1000000 by omega)]
        congr 2
        show nanos / 1000 * 1000 = nanos
        omega
      next =>
        rw [readFraction_digits (by decide) (show nanos < 1000000000 by omega)]
        congr 2
        exact Nat.mul_one nanos

/-- A leap second stands only after the last second of a minute. -/
private theorem readTime_timeText {second nanos : Nat} (hsecond : second < 86400) (hnanos : nanos < 2000000000)
    (hleap : 1000000000 ≤ nanos → second % 60 = 59) (rest : List Char) :
    readTime (timeText second nanos ++ 'Z' :: rest) = some ((second, nanos), 'Z' :: rest) := by
  have hmark : isBlank ':' = false := by decide
  simp only [timeText, List.append_assoc, List.cons_append, readTime, readMark_cons hmark, Option.bind_eq_bind,
    Option.bind_some, readBetween_append (Nat.zero_le _) (show second / 3600 ≤ 23 by omega)
      (show second / 3600 < 100 by omega),
    readBetween_append (Nat.zero_le _) (show second / 60 % 60 ≤ 59 by omega)
      (show second / 60 % 60 < 100 by omega),
    readBetween_append (Nat.zero_le _) (show second % 60 + nanos / 1000000000 ≤ 60 by omega)
      (show second % 60 + nanos / 1000000000 < 100 by omega),
    readFraction_fractionText (show nanos % 1000000000 < 1000000000 by omega)]
  split
  next h60 =>
    congr 3 <;> omega
  next h60 =>
    congr 3 <;> omega

/-- In the middle of a minute a leap second would be written as the second after it. -/
theorem timeText_leap {second nanos : Nat} (hsecond : second % 60 ≠ 59) (hnanos : nanos < 1000000000) :
    timeText second (nanos + 1000000000) = timeText (second + 1) nanos := by
  have hhour : (second + 1) / 3600 = second / 3600 := by omega
  have hminute : (second + 1) / 60 = second / 60 := by omega
  have hleap : second % 60 + (nanos + 1000000000) / 1000000000 = (second + 1) % 60 + nanos / 1000000000 := by omega
  have hrest : (nanos + 1000000000) % 1000000000 = nanos % 1000000000 := Nat.add_mod_right ..
  simp only [timeText, hhour, hminute, hleap, hrest]

/-! ### The whole text -/

private theorem toDays_bounds (t : Instant) :
    Date.daysToYear (-262143) ≤ t.dayNumber ∧ t.dayNumber < Date.daysToYear 262143 := by
  have hfirst := t.first_le
  have hlast := t.le_last
  have e1 : Date.daysToYear (-262143) = -96465292 := by decide
  have e2 : Date.daysToYear 262143 = 95026237 := by decide
  simp only [dayNumber, firstSecond, lastSecond] at *
  omega

theorem ofParts?_self (t : Instant) : ofParts? t.seconds t.nanos = some t :=
  dif_pos ⟨t.first_le, t.le_last, t.nanos_lt, t.leap_minute⟩

/-- The reader undoes the writer. -/
theorem read?_toText (t : Instant) : read? t.toText = some t := by
  obtain ⟨hlow, hhigh⟩ := toDays_bounds t
  have hnanos := t.nanos_lt
  have hday : (t.secondOfDay : Int) = t.seconds % 86400 := by unfold secondOfDay; omega
  have hleap : 1000000000 ≤ t.nanos → t.secondOfDay % 60 = 59 := fun h => by
    have := t.leap_minute h
    omega
  have hdate := readDate_dateText (Date.valid_ofDays t.dayNumber) (Date.month_ofDays t.dayNumber)
    (Date.day_ofDays_le t.dayNumber) (Date.year_ofDays hlow hhigh)
  have hsecond : t.secondOfDay < 86400 := by omega
  have htime := readTime_timeText hsecond hnanos hleap
  simp only [read?, toText, List.append_assoc, List.cons_append, hdate, readBreak, htime, Option.bind_eq_bind,
    Option.bind_some, true_or, ↓reduceIte, skipBlanks_cons (show isBlank 'Z' = false by decide), readZone]
  rw [if_pos (by rfl), Date.toDays_ofDays]
  have : t.dayNumber * 86400 + (t.secondOfDay : Int) - 0 = t.seconds := by
    unfold dayNumber
    omega
  rw [this, ofParts?_self]

end RoutedCache.Instant

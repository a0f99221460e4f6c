import RoutedCache.Time.Instant

/-!
# Days and dates

Every day has exactly the date that `Date.ofDays` gives: the date is valid, its month is one of the twelve and
`Date.toDays` leads back to the day (`Date.toDays_ofDays`).  The year is found because the estimate of
`Date.yearOfDays` is off by one at most.
-/

namespace RoutedCache.Date

/-! ### The year of a day -/

theorem daysToYear_succ (year : Int) :
    daysToYear (year + 1) = daysToYear year + daysOf (monthLengths year) := by
  simp only [daysToYear, monthLengths, isLeapYear, daysOf]
  by_cases h4 : year % 4 = 0 <;> by_cases h100 : year % 100 = 0 <;> by_cases h400 : year % 400 = 0 <;>
    simp [h4, h100, h400] <;> omega

/-- The day lies in the year of the day. -/
theorem yearOfDays_spec (days : Int) :
    daysToYear (yearOfDays days) ≤ days ∧ days < daysToYear (yearOfDays days + 1) := by
  unfold yearOfDays daysToYear
  generalize hq : (days + 719162) * 400 / 146097 = q
  have hlow : q * 146097 ≤ (days + 719162) * 400 := by omega
  have hhigh : (days + 719162) * 400 < (q + 1) * 146097 := by omega
  simp only
  split
  · constructor <;> omega
  · split <;> constructor <;> omega

theorem daysToYear_mono {a b : Int} (h : a ≤ b) : daysToYear a ≤ daysToYear b := by
  unfold daysToYear
  omega

/-! ### The month and the day in it -/

private theorem monthAndDay_spec {month index : Nat} {lengths : List Nat} (h : index < daysOf lengths) :
    ∃ i < lengths.length, (monthAndDay month index lengths).1 = month + i ∧
      1 ≤ (monthAndDay month index lengths).2 ∧ (monthAndDay month index lengths).2 ≤ lengths.getD i 0 ∧
      index + 1 = daysOf (lengths.take i) + (monthAndDay month index lengths).2 := by
  induction lengths generalizing month index with
  | nil => simp [daysOf] at h
  | cons length rest ih =>
    rw [daysOf] at h
    unfold monthAndDay
    split
    next hlt => exact ⟨0, by simp, by simp, by simp, by simp; omega, by simp [daysOf]⟩
    next hge =>
      obtain ⟨i, hi, hm, hd, hle, hsum⟩ := @ih (month + 1) (index - length) (by omega)
      refine ⟨i + 1, by simpa using hi, by omega, hd, by simpa using hle, ?_⟩
      rw [List.take_succ_cons, daysOf]
      omega

private theorem ofDays_spec (days : Int) :
    ∃ i < 12, (ofDays days).month = i + 1 ∧ 1 ≤ (ofDays days).day ∧
      (ofDays days).day ≤ (monthLengths (ofDays days).year).getD i 0 ∧
      days - daysToYear (ofDays days).year + 1 =
        daysOf ((monthLengths (ofDays days).year).take i) + ((ofDays days).day : Int) := by
  obtain ⟨hlow, hhigh⟩ := yearOfDays_spec days
  rw [daysToYear_succ] at hhigh
  have hindex : (days - daysToYear (yearOfDays days)).toNat < daysOf (monthLengths (yearOfDays days)) := by
    omega
  obtain ⟨i, hi, hm, hd, hle, hsum⟩ := @monthAndDay_spec 1 _ _ hindex
  refine ⟨i, hi, ?_, hd, hle, ?_⟩
  · show (monthAndDay 1 _ _).1 = i + 1
    omega
  · show days - daysToYear (yearOfDays days) + 1 = (daysOf ((monthLengths (yearOfDays days)).take i) : Nat) + _
    have hday : (ofDays days).day =
        (monthAndDay 1 (days - daysToYear (yearOfDays days)).toNat (monthLengths (yearOfDays days))).2 := rfl
    omega

/-! ### Dates of days -/

theorem month_ofDays (days : Int) : 1 ≤ (ofDays days).month ∧ (ofDays days).month ≤ 12 := by
  obtain ⟨i, hi, hm, -⟩ := ofDays_spec days
  omega

theorem valid_ofDays (days : Int) : (ofDays days).Valid := by
  obtain ⟨i, -, hm, hd, hle, -⟩ := ofDays_spec days
  refine ⟨hd, ?_⟩
  rw [monthLength, if_neg (by omega), hm]
  exact hle

/-- No month is longer than 31 days. -/
theorem day_ofDays_le (days : Int) : (ofDays days).day ≤ 31 := by
  obtain ⟨i, hi, -, -, hle, -⟩ := ofDays_spec days
  refine Nat.le_trans hle ?_
  have : ∀ length ∈ monthLengths (ofDays days).year, length ≤ 31 := by
    unfold monthLengths
    intro length hlength
    simp only [List.mem_cons, List.not_mem_nil, or_false] at hlength
    rcases hlength with rfl | rfl | rfl | rfl | rfl | rfl | rfl | rfl | rfl | rfl | rfl | rfl <;>
      (try split) <;> omega
  rw [List.getD_eq_getElem?_getD, List.getElem?_eq_getElem (by simpa [monthLengths] using hi)]
  exact this _ (List.getElem_mem _)

/-- The date of a day leads back to the day. -/
theorem toDays_ofDays (days : Int) : (ofDays days).toDays = days := by
  obtain ⟨i, -, hm, -, -, hsum⟩ := ofDays_spec days
  rw [toDays, show (ofDays days).month - 1 = i by omega]
  omega

/-- The days of the supported years have dates in these years. -/
theorem year_ofDays {days : Int} (hlow : daysToYear (-262143) ≤ days) (hhigh : days < daysToYear 262143) :
    -262143 ≤ (ofDays days).year ∧ (ofDays days).year ≤ 262142 := by
  obtain ⟨hl, hh⟩ := yearOfDays_spec days
  show -262143 ≤ yearOfDays days ∧ yearOfDays days ≤ 262142
  constructor
  · refine Int.not_lt.1 fun h => ?_
    have := daysToYear_mono (show yearOfDays days + 1 ≤ -262143 by omega)
    omega
  · refine Int.not_lt.1 fun h => ?_
    have := daysToYear_mono (show (262143 : Int) ≤ yearOfDays days by omega)
    omega

end RoutedCache.Date

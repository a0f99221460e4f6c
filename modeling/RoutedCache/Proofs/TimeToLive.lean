import RoutedCache.WriteOption

/-!
# Times to live

A time to live is counted on from the creation of a record in one of three ways (`Instant.addSaturating_cases`): it
ends in the leap second in which it began, it ends at the exact sum, or it ends at the latest instant because the sum
lies behind it.  A duration that is too long to be counted at all belongs to the last way, since it leads behind the
latest instant from every other one.  In this order the three ways meet without a gap, so that a longer time to live
never ends earlier (`Instant.addSaturating_mono`, `Record.ttl_saturates`).
-/

namespace RoutedCache

namespace Instant

variable {t : Instant} {d : Duration}

/-- The sum in nanoseconds from 1970 on, with a leap second counted as the second before it. -/
def exactSum (t : Instant) (d : Duration) : Int := t.seconds * 1000000000 + (t.nanos % 1000000000 : Nat) + d.toNanos

/-- The duration ends in the leap second in which it began. -/
def StaysInLeap (t : Instant) (d : Duration) : Prop := 1000000000 ≤ t.nanos ∧ t.nanos + d.toNanos < 2000000000

theorem toNanos_latest : latest.toNanos = 8210266876799999999999 := rfl

theorem ofNanos?_of_le {n : Int} (hlow : firstSecond * 1000000000 ≤ n) (hhigh : n ≤ latest.toNanos) :
    ∃ t, ofNanos? n = some t ∧ t.seconds = n / 1000000000 ∧ t.nanos = (n % 1000000000).toNat := by
  rw [toNanos_latest] at hhigh
  have hparts : firstSecond ≤ n / 1000000000 ∧ n / 1000000000 ≤ lastSecond ∧
      (n % 1000000000).toNat < 2000000000 ∧ (1000000000 ≤ (n % 1000000000).toNat → n / 1000000000 % 60 = 59) := by
    unfold firstSecond lastSecond at *
    omega
  exact ⟨⟨n / 1000000000, (n % 1000000000).toNat, hparts.1, hparts.2.1, hparts.2.2.1, hparts.2.2.2⟩,
    dif_pos hparts, rfl, rfl⟩

theorem ofNanos?_of_lt {n : Int} (h : latest.toNanos < n) : ofNanos? n = none := by
  rw [toNanos_latest] at h
  have hlast : ¬n / 1000000000 ≤ lastSecond := by
    unfold lastSecond
    omega
  exact dif_neg fun hparts => hlast hparts.2.1

theorem add?_of_stays (h : t.StaysInLeap d) : ∃ e, t.add? d = some e ∧ e.seconds = t.seconds ∧
    e.nanos = t.nanos + d.toNanos := by
  obtain ⟨hleap, hend⟩ := h
  have hparts : firstSecond ≤ t.seconds ∧ t.seconds ≤ lastSecond ∧ t.nanos + d.toNanos < 2000000000 ∧
      (1000000000 ≤ t.nanos + d.toNanos → t.seconds % 60 = 59) :=
    ⟨t.first_le, t.le_last, hend, fun _ => t.leap_minute hleap⟩
  refine ⟨⟨t.seconds, t.nanos + d.toNanos, hparts.1, hparts.2.1, hparts.2.2.1, hparts.2.2.2⟩, ?_, rfl, rfl⟩
  rw [add?, if_pos hleap, if_pos hend]
  exact dif_pos hparts

theorem add?_of_not_stays (h : ¬t.StaysInLeap d) : t.add? d = ofNanos? (t.exactSum d) := by
  have hnanos := t.nanos_lt
  unfold StaysInLeap at h
  unfold add? exactSum toNanos
  by_cases hleap : 1000000000 ≤ t.nanos
  · rw [if_pos hleap, if_neg (by omega)]
    congr 1
    omega
  · rw [if_neg hleap]
    congr 1
    omega

/-- A duration that is too long to be counted leads behind the latest instant. -/
private theorem lt_exactSum (t : Instant) (h : longestStep < d.toNanos) : latest.toNanos < t.exactSum d := by
  have hfirst := t.first_le
  unfold longestStep at h
  unfold firstSecond at hfirst
  rw [toNanos_latest, exactSum]
  omega

/-- The end of a time to live. -/
theorem addSaturating_cases (t : Instant) (d : Duration) :
    (t.StaysInLeap d ∧ (t.addSaturating d).seconds = t.seconds ∧
      (t.addSaturating d).nanos = t.nanos + d.toNanos) ∨
    (¬t.StaysInLeap d ∧ t.exactSum d ≤ latest.toNanos ∧
      (t.addSaturating d).seconds = t.exactSum d / 1000000000 ∧
      ((t.addSaturating d).nanos : Int) = t.exactSum d % 1000000000) ∨
    (¬t.StaysInLeap d ∧ latest.toNanos < t.exactSum d ∧ t.addSaturating d = latest) := by
  have hfirst := t.first_le
  by_cases hstays : t.StaysInLeap d
  · left
    obtain ⟨e, he, hseconds, hnanos⟩ := add?_of_stays hstays
    have hshort : d.toNanos ≤ longestStep := by
      unfold StaysInLeap at hstays
      unfold longestStep
      omega
    have hend : t.addSaturating d = e := by rw [addSaturating, if_pos hshort, he, Option.getD_some]
    rw [hend]
    exact ⟨hstays, hseconds, hnanos⟩
  · right
    have hadd := add?_of_not_stays hstays
    by_cases hlate : latest.toNanos < t.exactSum d
    · right
      refine ⟨hstays, hlate, ?_⟩
      rw [addSaturating, hadd, ofNanos?_of_lt hlate, Option.getD_none, ite_self]
    · left
      have hshort : d.toNanos ≤ longestStep := Nat.le_of_not_lt fun hlong => hlate (lt_exactSum t hlong)
      have hlow : firstSecond * 1000000000 ≤ t.exactSum d := by
        unfold exactSum
        omega
      obtain ⟨e, he, hseconds, hnanos⟩ := ofNanos?_of_le hlow (by omega)
      have hend : t.addSaturating d = e := by rw [addSaturating, if_pos hshort, hadd, he, Option.getD_some]
      rw [hend]
      exact ⟨hstays, by omega, hseconds, by omega⟩

/-! ### The end and the beginning -/

theorem addSaturating_le_latest (h : t ≤ latest) (d : Duration) : t.addSaturating d ≤ latest := by
  rw [le_def] at h ⊢
  rcases addSaturating_cases t d with ⟨⟨hleap, -⟩, hseconds, hnanos⟩ | ⟨-, hsum, hseconds, hnanos⟩ | ⟨-, -, hend⟩
  · simp only [latest] at h ⊢
    omega
  · rw [toNanos_latest] at hsum
    simp only [latest, lastSecond]
    omega
  · rw [hend]
    exact .inr ⟨rfl, Nat.le_refl _⟩

theorem le_addSaturating (h : t ≤ latest) (d : Duration) : t ≤ t.addSaturating d := by
  have hnanos := t.nanos_lt
  rcases addSaturating_cases t d with ⟨-, hseconds, hend⟩ | ⟨hstays, -, hseconds, hend⟩ | ⟨-, -, hend⟩
  · rw [le_def]
    omega
  · unfold StaysInLeap at hstays
    unfold exactSum at hseconds hend
    rw [le_def]
    omega
  · rw [hend]
    exact h

theorem lt_addSaturating (h : t < latest) (hd : 0 < d.toNanos) : t < t.addSaturating d := by
  have hnanos := t.nanos_lt
  rcases addSaturating_cases t d with ⟨-, hseconds, hend⟩ | ⟨hstays, -, hseconds, hend⟩ | ⟨-, -, hend⟩
  · rw [lt_def]
    omega
  · unfold StaysInLeap at hstays
    unfold exactSum at hseconds hend
    rw [lt_def]
    omega
  · rw [hend]
    exact h

/-- Outside a leap second the sum is exact up to the latest instant. -/
theorem toNanos_addSaturating (h : t.nanos < 1000000000) (d : Duration) :
    (t.addSaturating d).nanos < 1000000000 ∧
      (t.addSaturating d).toNanos = min (t.toNanos + d.toNanos) latest.toNanos := by
  have hexact : t.exactSum d = t.toNanos + d.toNanos := by
    unfold exactSum toNanos
    omega
  rcases addSaturating_cases t d with ⟨⟨hleap, -⟩, -⟩ | ⟨-, hsum, hseconds, hnanos⟩ | ⟨-, hsum, hend⟩
  · omega
  · rw [hexact] at hsum hseconds hnanos
    have hend : (t.addSaturating d).toNanos = t.toNanos + d.toNanos := by
      rw [toNanos, hseconds, hnanos]
      omega
    exact ⟨by omega, by rw [hend]; omega⟩
  · rw [hexact] at hsum
    rw [hend]
    exact ⟨by decide, by omega⟩

/-! ### Longer durations -/

section Longer

variable {longer : Duration} (hd : d.toNanos ≤ longer.toNanos)

include hd

theorem exactSum_mono (t : Instant) : t.exactSum d ≤ t.exactSum longer := by
  unfold exactSum
  omega

/-- What ends in the leap second ends there with every shorter duration. -/
theorem StaysInLeap.shorter (h : t.StaysInLeap longer) : t.StaysInLeap d := by
  unfold StaysInLeap at h ⊢
  omega

end Longer

/-- A leap second is left for the second after it. -/
theorem succ_le_exactSum (hleap : 1000000000 ≤ t.nanos) (h : ¬t.StaysInLeap d) :
    (t.seconds + 1) * 1000000000 ≤ t.exactSum d := by
  have hnanos := t.nanos_lt
  unfold StaysInLeap at h
  unfold exactSum
  omega

theorem addSaturating_mono (h : t ≤ latest) {longer : Duration} (hd : d.toNanos ≤ longer.toNanos) :
    t.addSaturating d ≤ t.addSaturating longer := by
  have hnanos := t.nanos_lt
  have hsums := exactSum_mono hd t
  rcases addSaturating_cases t longer with
    ⟨hstays, hseconds, hend⟩ | ⟨hleaves, hsum, hseconds, hend⟩ | ⟨-, -, hend⟩
  · rcases addSaturating_cases t d with ⟨-, hseconds', hend'⟩ | ⟨hleaves', -⟩ | ⟨hleaves', -⟩
    · rw [le_def]
      omega
    · exact absurd (hstays.shorter hd) hleaves'
    · exact absurd (hstays.shorter hd) hleaves'
  · rcases addSaturating_cases t d with
      ⟨hstays', hseconds', hend'⟩ | ⟨-, -, hseconds', hend'⟩ | ⟨-, hsum', -⟩
    · have hnext := succ_le_exactSum hstays'.1 hleaves
      rw [le_def]
      omega
    · rw [le_def]
      omega
    · exact absurd (Int.lt_of_lt_of_le hsum' hsums) (Int.not_lt.2 hsum)
  · rw [hend]
    exact addSaturating_le_latest h d

theorem lt_of_lt_of_le {a b c : Instant} (hab : a < b) (hbc : b ≤ c) : a < c := by
  rw [lt_def] at hab ⊢
  rw [le_def] at hbc
  omega

end Instant

open Instant

namespace Record

variable {record : Record} {length : Duration}

theorem apply_ttl_of_none (h : record.metadata.notValidAfter = none) : record.apply (.ttl length) = .ok { record with
    metadata := { record.metadata with
      notValidAfter := some (record.metadata.createdAt.addSaturating length) } } := by
  simp only [apply, setExpiry, h]

theorem notValidAfter_of_apply_ttl {next : Record} (h : record.apply (.ttl length) = .ok next) :
    next.metadata.notValidAfter = some (record.metadata.createdAt.addSaturating length) := by
  simp only [apply, setExpiry] at h
  split at h
  next => cases h
  next =>
    cases h
    rfl

theorem isValidAt_of_later {earlier later : Instant} {next : Record} {t : Instant}
    (hrecord : record.metadata.notValidAfter = some earlier) (hnext : next.metadata.notValidAfter = some later)
    (hle : earlier ≤ later) (h : record.isValidAt t = true) : next.isValidAt t = true := by
  simp only [isValidAt, Metadata.isValidAt, hrecord, hnext, decide_eq_true_eq] at h ⊢
  exact lt_of_lt_of_le h hle

/-- A time to live ends between the creation and the latest instant, later than the creation if there is room for it,
and at the exact sum if there is one; it is the same as the end that it leads to, and a longer one ends no earlier. -/
theorem ttl_saturates (createdAt : Instant) (hcreated : createdAt ≤ latest) :
    ∃ stop : Duration → Instant,
      (∀ length (record : Record), record.metadata.createdAt = createdAt →
        record.apply (.ttl length) = record.apply (.eol (stop length)) ∧
        (record.metadata.notValidAfter = none → record.apply (.ttl length) =
          .ok { record with metadata := { record.metadata with notValidAfter := some (stop length) } })) ∧
      (∀ length, createdAt ≤ stop length ∧ stop length ≤ latest ∧
        (0 < length.toNanos → createdAt < latest → createdAt < stop length) ∧
        (createdAt.nanos < 1000000000 → (stop length).nanos < 1000000000 ∧
          (stop length).toNanos = min (createdAt.toNanos + length.toNanos) latest.toNanos)) ∧
      ∀ length longer : Duration, length.toNanos ≤ longer.toNanos → stop length ≤ stop longer ∧
        ∀ record other short long : Record, record.metadata.createdAt = createdAt →
          other.metadata.createdAt = createdAt → record.apply (.ttl length) = .ok short →
          other.apply (.ttl longer) = .ok long → ∀ t, short.isValidAt t = true → long.isValidAt t = true := by
  refine ⟨createdAt.addSaturating, ?_, ?_, ?_⟩
  · rintro length record rfl
    exact ⟨rfl, apply_ttl_of_none⟩
  · intro length
    refine ⟨le_addSaturating hcreated length, addSaturating_le_latest hcreated length, ?_, ?_⟩
    · intro hlength hroom
      exact lt_addSaturating hroom hlength
    · intro hnanos
      exact toNanos_addSaturating hnanos length
  · intro length longer hle
    have hmono := addSaturating_mono hcreated hle
    refine ⟨hmono, ?_⟩
    intro record other short long hrecord hother hshort hlong t hvalid
    have hearlier := notValidAfter_of_apply_ttl hshort
    have hlater := notValidAfter_of_apply_ttl hlong
    rw [hrecord] at hearlier
    rw [hother] at hlater
    exact isValidAt_of_later hearlier hlater hmono hvalid

/-- Created in the leap second at the end of 2016: four tenths of a second end in it, six tenths in the second after
it, and the longest duration at the latest instant. -/
theorem ttl_saturates_leap :
    let createdAt : Instant := ⟨1483228799, 1500000000, by decide, by decide, by decide, by decide⟩
    let short : Duration := ⟨0, 400000000, by decide⟩
    let long : Duration := ⟨0, 600000000, by decide⟩
    let longest : Duration := ⟨18446744073709551615, 999999999, by decide⟩
    let record := fresh [7] createdAt
    let made (stop : Instant) : Record :=
      { record with metadata := { record.metadata with notValidAfter := some stop } }
    createdAt ≤ latest ∧
      record.apply (.ttl short) = .ok (made ⟨1483228799, 1900000000, by decide, by decide, by decide, by decide⟩) ∧
      record.apply (.ttl long) = .ok (made ⟨1483228800, 100000000, by decide, by decide, by decide, by decide⟩) ∧
      record.apply (.ttl longest) = .ok (made latest) ∧
      ∃ stop : Duration → Instant, stop short ≤ stop long ∧ stop long ≤ stop longest ∧ stop longest ≤ latest ∧
        createdAt < stop short ∧ record.apply (.ttl long) = record.apply (.eol (stop long)) := by
  intro createdAt short long longest record made
  have hcreated : createdAt ≤ latest := by decide
  have hmade {length : Duration} {stop : Instant} (hsum : createdAt.addSaturating length = stop) :
      record.apply (.ttl length) = .ok (made stop) := by
    rw [apply_ttl_of_none rfl, ← hsum]
    rfl
  obtain ⟨stop, hsame, hends, hmono⟩ := ttl_saturates createdAt hcreated
  refine ⟨hcreated, hmade (by decide), hmade (by decide), hmade (by decide), stop,
    ?_, ?_, (hends longest).2.1, ?_, ?_⟩
  · exact (hmono short long (by decide)).1
  · exact (hmono long longest (by decide)).1
  · exact (hends short).2.2.1 (by decide) (by decide)
  · exact (hsame long record rfl).1

end Record

end RoutedCache

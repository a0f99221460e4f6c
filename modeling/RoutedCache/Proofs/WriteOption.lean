import RoutedCache.WriteOption

/-!
# Options in turn

A record takes the first end of its validity that it is given and refuses every other one, and it takes the mark of a
single reading at any time (`Record.given`).  The main step is one option (`Record.apply_eq`): whether it is taken or
refused, the record after it is the one that it has been given.  Hence all options in turn (`Record.applyEach_append`)
and all options up to the first error (`Record.applyAll_eq`) end in the same record as long as there is no error
(`Record.first_expiry_counts`).
-/

namespace RoutedCache

/-- The end of the validity that an option gives to a record of the given time. -/
def WriteOption.stop? (createdAt : Instant) : WriteOption → Option Instant
  | .ttl length => some (createdAt.addSaturating length)
  | .eol stop => some stop
  | .burnAfterReading => none

def WriteOption.endsValidity : WriteOption → Bool
  | .burnAfterReading => false
  | _ => true

theorem WriteOption.isSome_stop? (createdAt : Instant) (option : WriteOption) :
    (option.stop? createdAt).isSome = option.endsValidity := by
  cases option <;> rfl

theorem WriteOption.length_filterMap_stop? (createdAt : Instant) (options : List WriteOption) :
    (options.filterMap (stop? createdAt)).length = options.countP endsValidity := by
  rw [List.length_filterMap_eq_countP]
  exact List.countP_congr fun option _ => by rw [isSome_stop?]

namespace Record

/-- The ends of the validity that a record has and is to be given. -/
def stops (record : Record) (options : List WriteOption) : List Instant :=
  record.metadata.notValidAfter.toList ++ options.filterMap (WriteOption.stop? record.metadata.createdAt)

/-- The record with what the options bring: the first end of the validity counts. -/
def given (record : Record) (options : List WriteOption) : Record :=
  ⟨record.data, record.metadata.createdAt, (record.stops options).head?,
    record.metadata.burnAfterReading || options.contains .burnAfterReading⟩

/-- A second end of the validity is refused. -/
def refuses (record : Record) (option : WriteOption) : Bool :=
  option.endsValidity && record.metadata.notValidAfter.isSome

/-- The record after all options, those that fail left out. -/
def afterEach (record : Record) (options : List WriteOption) : Record :=
  ((record.applyEach options).map (·.2)).getLastD record

variable {record : Record}

/-! ### One option -/

@[simp] theorem given_nil (record : Record) : record.given [] = record := by
  obtain ⟨data, createdAt, notValidAfter, burnAfterReading⟩ := record
  cases notValidAfter <;> simp [given, stops]

theorem given_append (record : Record) (before after : List WriteOption) :
    record.given (before ++ after) = (record.given before).given after := by
  have hstops : (record.stops (before ++ after)).head? = ((record.given before).stops after).head? := by
    simp only [stops, given, List.filterMap_append, List.head?_append, Option.head?_toList, Option.or_assoc]
  simp only [given] at hstops ⊢
  simp [hstops, Bool.or_assoc]

theorem given_of_refuses {option : WriteOption} (h : record.refuses option = true) :
    record.given [option] = record := by
  obtain ⟨data, createdAt, notValidAfter, burnAfterReading⟩ := record
  simp only [refuses, Bool.and_eq_true, Option.isSome_iff_exists] at h
  obtain ⟨hends, stop, rfl⟩ := h
  cases option with
  | ttl => simp [given, stops]
  | eol => simp [given, stops]
  | burnAfterReading => cases hends

/-- An option is refused or leaves the record that it is given to. -/
theorem apply_eq (record : Record) (option : WriteOption) : record.apply option =
    if record.refuses option then .error .duplicateExpiry else .ok (record.given [option]) := by
  obtain ⟨data, createdAt, notValidAfter, burnAfterReading⟩ := record
  have hexpiry (stop : Instant) (hends : option.endsValidity = true) (hstop : option.stop? createdAt = some stop) :
      setExpiry ⟨data, createdAt, notValidAfter, burnAfterReading⟩ stop =
        if refuses ⟨data, createdAt, notValidAfter, burnAfterReading⟩ option then .error .duplicateExpiry
        else .ok (given ⟨data, createdAt, notValidAfter, burnAfterReading⟩ [option]) := by
    have hburn : WriteOption.burnAfterReading ≠ option := by
      intro h
      rw [← h] at hends
      cases hends
    cases notValidAfter with
    | none => simp [setExpiry, refuses, given, stops, hstop, hburn]
    | some => simp [setExpiry, refuses, hends]
  cases option with
  | ttl length => exact hexpiry _ rfl rfl
  | eol stop => exact hexpiry _ rfl rfl
  | burnAfterReading => cases notValidAfter <;> simp [apply, refuses, WriteOption.endsValidity, given, stops,
      WriteOption.stop?]

/-! ### All options -/

/-- Whether an option is taken or refused, the next one meets the record that was given the option. -/
theorem applyEach_cons (record : Record) (option : WriteOption) (rest : List WriteOption) :
    record.applyEach (option :: rest) =
      (if record.refuses option then .error .duplicateExpiry else .ok (), record.given [option]) ::
        (record.given [option]).applyEach rest := by
  rw [applyEach, apply_eq]
  by_cases h : record.refuses option = true
  · simp [h, given_of_refuses h]
  · simp [h]

theorem applyEach_append (record : Record) (before after : List WriteOption) :
    record.applyEach (before ++ after) = record.applyEach before ++ (record.given before).applyEach after := by
  induction before generalizing record with
  | nil => simp [applyEach]
  | cons option before ih =>
    rw [List.cons_append, applyEach_cons, applyEach_cons, ih, ← given_append]
    rfl

theorem length_applyEach (record : Record) (options : List WriteOption) :
    (record.applyEach options).length = options.length := by
  induction options generalizing record with
  | nil => rfl
  | cons option rest ih => rw [applyEach_cons, List.length_cons, ih, List.length_cons]

theorem afterEach_eq_given (record : Record) (options : List WriteOption) :
    record.afterEach options = record.given options := by
  unfold afterEach
  induction options generalizing record with
  | nil => simp [applyEach]
  | cons option rest ih =>
    have hgiven := given_append record [option] rest
    rw [List.singleton_append] at hgiven
    rw [applyEach_cons, List.map_cons, List.getLastD_cons, ih, hgiven]

/-! ### Up to the first error -/

theorem length_stops_of_refuses {option : WriteOption} (h : record.refuses option = true)
    (rest : List WriteOption) : 1 < (record.stops (option :: rest)).length := by
  simp only [refuses, Bool.and_eq_true, Option.isSome_iff_exists] at h
  obtain ⟨hends, stop, hstop⟩ := h
  rw [← WriteOption.isSome_stop? record.metadata.createdAt, Option.isSome_iff_exists] at hends
  obtain ⟨second, hsecond⟩ := hends
  simp [stops, hstop, hsecond]

theorem stops_given {option : WriteOption} (h : ¬record.refuses option = true) (rest : List WriteOption) :
    (record.given [option]).stops rest = record.stops (option :: rest) := by
  obtain ⟨data, createdAt, notValidAfter, burnAfterReading⟩ := record
  cases notValidAfter with
  | none => cases hstop : option.stop? createdAt <;> simp [stops, given, hstop]
  | some first =>
    have hnone : option.stop? createdAt = none := by
      rw [← Option.not_isSome_iff_eq_none, WriteOption.isSome_stop?]
      simpa [refuses] using h
    simp [stops, given, hnone]

/-- The options are refused if they give a second end to the validity, and stopping at the first error makes no
difference if there is none. -/
theorem applyAll_eq (record : Record) (options : List WriteOption) : record.applyAll options =
    if (record.stops options).length ≤ 1 then .ok (record.given options) else .error .duplicateExpiry := by
  induction options generalizing record with
  | nil =>
    have hlength : (record.stops []).length ≤ 1 := by
      cases hstop : record.metadata.notValidAfter <;> simp [stops, hstop]
    rw [if_pos hlength, given_nil]
    rfl
  | cons option rest ih =>
    have hall : record.applyAll (option :: rest) = (record.apply option).bind (applyAll · rest) := rfl
    rw [hall, apply_eq]
    by_cases hrefuses : record.refuses option = true
    · have hlength := length_stops_of_refuses hrefuses rest
      rw [if_pos hrefuses, if_neg (by omega)]
      rfl
    · have hgiven := given_append record [option] rest
      rw [List.singleton_append] at hgiven
      rw [if_neg hrefuses, hgiven, ← stops_given hrefuses]
      exact ih _

theorem eq_given_of_applyAll {next : Record} {options : List WriteOption} (h : record.applyAll options = .ok next) :
    next = record.given options := by
  rw [applyAll_eq] at h
  split at h
  next => exact (Except.ok.inj h).symm
  next => cases h

theorem applyAll_cases (record : Record) (options : List WriteOption) :
    (record.applyAll options = .error .duplicateExpiry ∧ 1 < (record.stops options).length) ∨
    ∃ next, record.applyAll options = .ok next ∧ (record.stops options).length ≤ 1 ∧
      next.metadata.notValidAfter = (record.stops options).head? := by
  rw [applyAll_eq]
  by_cases hlength : (record.stops options).length ≤ 1
  · right
    exact ⟨_, if_pos hlength, hlength, rfl⟩
  · left
    exact ⟨if_neg hlength, by omega⟩

/-! ### Fresh records -/

section Fresh

variable (data : Bytes) (createdAt : Instant) (options : List WriteOption)

theorem given_fresh : (fresh data createdAt).given options = ⟨data, createdAt,
    options.findSome? (WriteOption.stop? createdAt), options.contains .burnAfterReading⟩ := by
  simp [given, stops, fresh, List.head?_filterMap]

theorem refuses_given_fresh (before : List WriteOption) (option : WriteOption) :
    ((fresh data createdAt).given before).refuses option = true ↔
      option.endsValidity = true ∧ ∃ earlier ∈ before, earlier.endsValidity = true := by
  rw [given_fresh, refuses, Bool.and_eq_true, List.isSome_findSome?, List.any_eq_true]
  simp only [WriteOption.isSome_stop?]

/-- A fresh record has no end of its validity, so it takes one. -/
theorem applyAll_fresh : (fresh data createdAt).applyAll options =
    if options.countP WriteOption.endsValidity ≤ 1 then .ok ((fresh data createdAt).given options)
    else .error .duplicateExpiry := by
  rw [applyAll_eq, ← WriteOption.length_filterMap_stop? createdAt]
  rfl

theorem applyAll_fresh_eq_error_iff {error : CacheError} : (fresh data createdAt).applyAll options = .error error ↔
    error = .duplicateExpiry ∧ 2 ≤ options.countP WriteOption.endsValidity := by
  rw [applyAll_fresh]
  by_cases hone : options.countP WriteOption.endsValidity ≤ 1
  · rw [if_pos hone]
    constructor
    · intro h
      cases h
    · rintro ⟨-, htwo⟩
      omega
  · rw [if_neg hone]
    constructor
    · intro h
      cases h
      exact ⟨rfl, by omega⟩
    · rintro ⟨rfl, -⟩
      rfl

theorem applyAll_fresh_eq_ok_iff {next : Record} : (fresh data createdAt).applyAll options = .ok next ↔
    options.countP WriteOption.endsValidity ≤ 1 ∧ next = (fresh data createdAt).given options := by
  rw [applyAll_fresh]
  by_cases hone : options.countP WriteOption.endsValidity ≤ 1
  · rw [if_pos hone, Except.ok.injEq]
    constructor
    · intro h
      exact ⟨hone, h.symm⟩
    · intro h
      exact h.2.symm
  · rw [if_neg hone]
    constructor
    · intro h
      cases h
    · intro h
      exact absurd h.1 hone

/-- The order of the options does not matter if one of them at most ends the validity. -/
theorem given_fresh_perm {others : List WriteOption} (hp : others.Perm options)
    (hone : options.countP WriteOption.endsValidity ≤ 1) :
    (fresh data createdAt).given others = (fresh data createdAt).given options := by
  have hstops := hp.filterMap (WriteOption.stop? createdAt)
  have hlength := WriteOption.length_filterMap_stop? createdAt options
  have hequal : others.filterMap (WriteOption.stop? createdAt) =
      options.filterMap (WriteOption.stop? createdAt) := by
    cases hlist : options.filterMap (WriteOption.stop? createdAt) with
    | nil =>
      rw [hlist] at hstops
      exact hstops.eq_nil
    | cons stop rest =>
      rw [hlist, List.length_cons] at hlength
      have hrest : rest = [] := List.length_eq_zero_iff.1 (by omega)
      rw [hlist, hrest] at hstops
      rw [hrest]
      exact List.perm_singleton.1 hstops
  simp [given_fresh, ← List.head?_filterMap, hequal, hp.mem_iff]

end Fresh

/-- Of the options that end the validity the first one counts, and each later one fails and changes nothing; a mark for
a single reading counts wherever it stands.  All options up to the first error fail exactly if two of them end the
validity, and otherwise make the same record in every order. -/
theorem first_expiry_counts (data : Bytes) (createdAt : Instant) (options : List WriteOption) :
    ((fresh data createdAt).applyEach options).length = options.length ∧
    (∀ before option after, options = before ++ option :: after →
      ((fresh data createdAt).applyEach options)[before.length]? = some (
        if option.endsValidity ∧ ∃ earlier ∈ before, earlier.endsValidity then
          (.error .duplicateExpiry, (fresh data createdAt).afterEach before)
        else (.ok (), (fresh data createdAt).afterEach (before ++ [option])))) ∧
    (fresh data createdAt).afterEach options = ⟨data, createdAt,
      options.findSome? (WriteOption.stop? createdAt), options.contains .burnAfterReading⟩ ∧
    (∀ error, (fresh data createdAt).applyAll options = .error error ↔
      error = .duplicateExpiry ∧ 2 ≤ options.countP WriteOption.endsValidity) ∧
    (∀ next, (fresh data createdAt).applyAll options = .ok next ↔
      options.countP WriteOption.endsValidity ≤ 1 ∧ next = (fresh data createdAt).afterEach options) ∧
    ∀ others, others.Perm options → ∀ next, (fresh data createdAt).applyAll options = .ok next →
      (fresh data createdAt).applyAll others = .ok next := by
  refine ⟨length_applyEach _ _, ?_, ?_, ?_, ?_, ?_⟩
  · rintro before option after rfl
    have hplace : ((fresh data createdAt).applyEach before).length = before.length := length_applyEach _ _
    rw [applyEach_append, applyEach_cons, ← hplace, List.getElem?_append_right (Nat.le_refl _), Nat.sub_self,
      List.getElem?_cons_zero, afterEach_eq_given, afterEach_eq_given, given_append]
    by_cases hrefuses : ((fresh data createdAt).given before).refuses option = true
    · rw [if_pos hrefuses, if_pos ((refuses_given_fresh data createdAt before option).1 hrefuses),
        given_of_refuses hrefuses]
    · rw [if_neg hrefuses, if_neg fun h => hrefuses ((refuses_given_fresh data createdAt before option).2 h)]
  · rw [afterEach_eq_given, given_fresh]
  · intro error
    exact applyAll_fresh_eq_error_iff data createdAt options
  · intro next
    rw [afterEach_eq_given]
    exact applyAll_fresh_eq_ok_iff data createdAt options
  · intro others hp next h
    obtain ⟨hone, rfl⟩ := (applyAll_fresh_eq_ok_iff data createdAt options).1 h
    rw [applyAll_fresh_eq_ok_iff, hp.countP_eq, given_fresh_perm data createdAt options hp hone]
    exact ⟨hone, rfl⟩

/-- The end that is given second is refused, in the middle of the options, and the mark behind it is still taken. -/
theorem first_expiry_counts_second :
    let createdAt : Instant := ⟨1700000000, 0, by decide, by decide, by decide, by decide⟩
    let stop : Instant := ⟨1700000005, 0, by decide, by decide, by decide, by decide⟩
    let record := fresh [1, 2] createdAt
    let options : List WriteOption := [.ttl ⟨5, 0, by decide⟩, .eol .latest, .burnAfterReading]
    let single : List WriteOption := [.ttl ⟨5, 0, by decide⟩, .burnAfterReading]
    (record.applyEach options)[1]? = some (.error .duplicateExpiry, ⟨[1, 2], createdAt, some stop, false⟩) ∧
      record.afterEach options = ⟨[1, 2], createdAt, some stop, true⟩ ∧
      record.applyAll options = .error .duplicateExpiry ∧
      single.reverse.Perm single ∧
      record.applyAll single = .ok ⟨[1, 2], createdAt, some stop, true⟩ ∧
      record.applyAll single.reverse = .ok ⟨[1, 2], createdAt, some stop, true⟩ := by
  intro createdAt stop record options single
  have hsum : createdAt.addSaturating ⟨5, 0, by decide⟩ = stop := by decide
  obtain ⟨-, hsteps, hlast, herror, -, -⟩ := first_expiry_counts [1, 2] createdAt options
  obtain ⟨-, -, hfirst, -⟩ := first_expiry_counts [1, 2] createdAt [.ttl ⟨5, 0, by decide⟩]
  obtain ⟨-, -, hsingle, -, hok, hothers⟩ := first_expiry_counts [1, 2] createdAt single
  have hreverse : single.reverse.Perm single := List.reverse_perm single
  have hmade : record.applyAll single = .ok ⟨[1, 2], createdAt, some stop, true⟩ :=
    (hok _).2 ⟨by decide, by rw [hsingle, ← hsum]; rfl⟩
  refine ⟨?_, ?_, (herror _).2 ⟨rfl, by decide⟩, hreverse, hmade, hothers _ hreverse _ hmade⟩
  · have hrefused := hsteps [.ttl ⟨5, 0, by decide⟩] (.eol .latest) [.burnAfterReading] rfl
    rw [if_pos (by decide), hfirst] at hrefused
    rw [← hsum]
    exact hrefused
  · rw [← hsum]
    exact hlast

end Record

end RoutedCache

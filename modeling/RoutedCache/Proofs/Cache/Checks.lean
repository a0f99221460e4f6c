import RoutedCache.Proofs.Cache.Transition
import RoutedCache.Proofs.MountTable
import RoutedCache.Proofs.WriteOption

/-!
# Checks

A write, a read or a delete is refused by the first of its checks that fails.  The checks before any lock depend on
the request, the mounts and the clock alone; `Request.checks` puts them in their order.  If one of them fails, the
request is answered at once, with the answer of the first that does, and if none does it comes to a store
(`Request.route_cases`).
-/

namespace RoutedCache

/-- The answer of the first check that fails. -/
def firstFailure (checks : List (Option Answer)) : Option Answer := checks.findSome? id

def keyCheck (key : String) : Option Answer :=
  match normalizeKey key with
  | .error fault => some (.failed (.invalidKey fault))
  | .ok _ => none

def clockCheck : Option Instant → Option Answer
  | none => some .broken
  | some _ => none

/-- One option at most may end the validity. -/
def expiryCheck (options : List WriteOption) : Option Answer :=
  if 1 < options.countP WriteOption.endsValidity then some (.failed .duplicateExpiry) else none

/-- The validity must not be over when the record is made. -/
def dropCheck (now : Option Instant) (options : List WriteOption) : Option Answer :=
  now.bind fun now =>
    if ∃ stop ∈ options.filterMap (WriteOption.stop? now), ¬now < stop then some .dropped else none

def mountCheck (mounts : MountTable Nat) (key : String) : Option Answer :=
  if leadingSegment (trimSlashes key) ∈ mounts.paths then none
  else some (.failed (.noMount (trimSlashes key)))

/-- The checks before a lock is asked for, in their order. -/
def Request.checks (mounts : MountTable Nat) (clock : Clock) : Request → List (Option Answer)
  | .write key _ options =>
    [keyCheck key, clockCheck clock.read?, expiryCheck options, dropCheck clock.read? options,
      mountCheck mounts key]
  | .read key => [keyCheck key, mountCheck mounts key]
  | .delete key => [keyCheck key, mountCheck mounts key]
  | _ => []

section FirstFailure

variable {answer : Answer} {checks : List (Option Answer)}

@[simp] theorem firstFailure_nil : firstFailure [] = none := rfl

@[simp] theorem firstFailure_some : firstFailure (some answer :: checks) = some answer := rfl

@[simp] theorem firstFailure_none : firstFailure (none :: checks) = firstFailure checks := rfl

theorem firstFailure_append (checks others : List (Option Answer)) :
    firstFailure (checks ++ others) = (firstFailure checks).or (firstFailure others) :=
  List.findSome?_append

end FirstFailure

/-! ### Keys and mounts -/

theorem normalizeKey_eq_ok {key stored : String} (h : normalizeKey key = .ok stored) :
    stored = trimSlashes key := by
  simp only [normalizeKey] at h
  split at h
  · cases h
  · split at h
    · cases h
    · exact (Except.ok.inj h).symm

namespace MountTable

variable {mounts : MountTable Nat}

theorem place_of_normalized {key stored : String} (h : normalizeKey key = .ok stored) :
    mounts.place key = (mounts.resolve stored).map fun mount => (stored, mount.2) := by
  unfold place
  rw [h]
  show (mounts.resolve stored >>= fun mount => .ok (stored, mount.2)) = _
  cases mounts.resolve stored <;> rfl

theorem place_cases (mounts : MountTable Nat) (key : String) :
    (∃ error, mounts.place key = .error error ∧
      firstFailure [keyCheck key, mountCheck mounts key] = some (.failed error)) ∨
    ∃ place, mounts.place key = .ok place ∧ firstFailure [keyCheck key, mountCheck mounts key] = none := by
  cases hkey : normalizeKey key with
  | error fault =>
    left
    refine ⟨.invalidKey fault, ?_, ?_⟩
    · simp only [place, hkey]
      rfl
    · simp [keyCheck, hkey]
  | ok stored =>
    have hstored := normalizeKey_eq_ok hkey
    subst hstored
    rcases mounts.resolve_cases (trimSlashes key) with ⟨hresolve, hpath⟩ | ⟨store, hresolve, hpath⟩
    · left
      refine ⟨.noMount (trimSlashes key), ?_, ?_⟩
      · rw [place_of_normalized hkey, hresolve]
        rfl
      · simp [keyCheck, hkey, mountCheck, hpath]
    · right
      refine ⟨(trimSlashes key, store), ?_, ?_⟩
      · rw [place_of_normalized hkey, hresolve]
        rfl
      · simp [keyCheck, hkey, mountCheck, hpath]

end MountTable

/-! ### Options -/

namespace Record

theorem isValidAt_iff {record : Record} {stops : List Instant} (h : record.metadata.notValidAfter = stops.head?)
    (hlength : stops.length ≤ 1) (now : Instant) :
    record.isValidAt now = true ↔ ¬∃ stop ∈ stops, ¬now < stop := by
  unfold isValidAt Metadata.isValidAt
  rw [h]
  cases stops with
  | nil => simp
  | cons stop rest =>
    have hrest : rest = [] := by
      rw [List.length_cons] at hlength
      exact List.length_eq_zero_iff.1 (by omega)
    subst hrest
    simp

end Record

theorem Request.freshEntry_cases (now : Option Instant) (key : String) (data : Bytes)
    (options : List WriteOption) :
    (∃ answer, freshEntry now key data options = .error answer ∧
      firstFailure [keyCheck key, clockCheck now, expiryCheck options, dropCheck now options] = some answer) ∨
    ∃ record, freshEntry now key data options = .ok ⟨trimSlashes key, record⟩ ∧
      firstFailure [keyCheck key, clockCheck now, expiryCheck options, dropCheck now options] = none := by
  cases hkey : normalizeKey key with
  | error fault =>
    left
    exact ⟨.failed (.invalidKey fault), by simp [freshEntry, hkey], by simp [keyCheck, hkey]⟩
  | ok stored =>
    have hstored := normalizeKey_eq_ok hkey
    subst hstored
    cases now with
    | none =>
      left
      exact ⟨.broken, by simp [freshEntry, hkey], by simp [keyCheck, hkey, clockCheck]⟩
    | some now =>
      have hstops : (Record.fresh data now).stops options = options.filterMap (WriteOption.stop? now) := rfl
      have hcount := WriteOption.length_filterMap_stop? now options
      rcases (Record.fresh data now).applyAll_cases options with ⟨hall, hlength⟩ | ⟨record, hall, hlength, hstop⟩
      · rw [hstops, hcount] at hlength
        left
        refine ⟨.failed .duplicateExpiry, by simp [freshEntry, hkey, hall], ?_⟩
        simp only [keyCheck, hkey, clockCheck, expiryCheck, if_pos hlength, firstFailure_none, firstFailure_some]
      · rw [hstops] at hlength hstop
        have hexpiry : expiryCheck options = none := by
          rw [expiryCheck, if_neg (by omega)]
        have hvalid := Record.isValidAt_iff hstop hlength now
        by_cases hdrop : ∃ stop ∈ options.filterMap (WriteOption.stop? now), ¬now < stop
        · have hover : record.isValidAt now = false := by
            rw [← Bool.not_eq_true, hvalid]
            exact not_not_intro hdrop
          left
          refine ⟨.dropped, by simp [freshEntry, hkey, hall, hover], ?_⟩
          simp only [keyCheck, hkey, clockCheck, hexpiry, dropCheck, Option.bind_some, if_pos hdrop,
            firstFailure_none, firstFailure_some]
        · right
          refine ⟨record, by simp [freshEntry, hkey, hall, hvalid.2 hdrop], ?_⟩
          simp only [keyCheck, hkey, clockCheck, hexpiry, dropCheck, Option.bind_some, if_neg hdrop,
            firstFailure_none, firstFailure_nil]

/-- The record that a write makes has the options applied to it and is valid when it is made. -/
theorem Request.freshEntry_eq_ok {now : Option Instant} {key : String} {data : Bytes} {options : List WriteOption}
    {entry : KeyRecord} (h : freshEntry now key data options = .ok entry) :
    ∃ t, now = some t ∧ normalizeKey key = .ok entry.key ∧
      (Record.fresh data t).applyAll options = .ok entry.record ∧ entry.record.isValidAt t = true := by
  unfold freshEntry at h
  split at h
  next => cases h
  next => cases h
  next stored t hkey =>
    split at h
    next => cases h
    next record hall =>
      split at h
      next hvalid =>
        cases h
        exact ⟨t, rfl, hkey, hall, hvalid⟩
      next => cases h

/-! ### Requests -/

namespace Request

variable {request : Request} {mounts : MountTable Nat} {clock : Clock}

/-- A call is answered by the first check that fails, or it comes to a store. -/
theorem route_cases (hcall : request.IsCall) (mounts : MountTable Nat) (clock : Clock) :
    (∃ answer, request.route mounts clock = .error answer ∧
      firstFailure (request.checks mounts clock) = some answer) ∨
    ∃ place, request.route mounts clock = .ok place ∧ firstFailure (request.checks mounts clock) = none := by
  have hplace (key : String) := mounts.place_cases key
  cases request with
  | write key data options =>
    have hchecks : (Request.write key data options).checks mounts clock =
        [keyCheck key, clockCheck clock.read?, expiryCheck options, dropCheck clock.read? options] ++
          [mountCheck mounts key] := rfl
    rcases freshEntry_cases clock.read? key data options with ⟨answer, hfresh, hfirst⟩ | ⟨record, hfresh, hfirst⟩
    · left
      refine ⟨answer, by simp [route, hfresh], ?_⟩
      rw [hchecks, firstFailure_append, hfirst, Option.some_or]
    · rw [hchecks, firstFailure_append, hfirst, Option.none_or]
      rcases mounts.resolve_cases (trimSlashes key) with ⟨hresolve, hpath⟩ | ⟨store, hresolve, hpath⟩
      · left
        refine ⟨.failed (.noMount (trimSlashes key)), ?_, by simp [mountCheck, hpath]⟩
        simp only [route, hfresh, hresolve]
      · right
        refine ⟨(store, .put ⟨trimSlashes key, record⟩), ?_, by simp [mountCheck, hpath]⟩
        simp only [route, hfresh, hresolve]
  | read key =>
    rcases hplace key with ⟨error, hp, hfirst⟩ | ⟨place, hp, hfirst⟩
    · left
      exact ⟨.failed error, by simp [route, hp], hfirst⟩
    · right
      refine ⟨(place.2, .get place.1), ?_, hfirst⟩
      simp only [route, hp]
  | delete key =>
    rcases hplace key with ⟨error, hp, hfirst⟩ | ⟨place, hp, hfirst⟩
    · left
      exact ⟨.failed error, by simp [route, hp], hfirst⟩
    · right
      refine ⟨(place.2, .delete place.1), ?_, hfirst⟩
      simp only [route, hp]
  | _ => exact hcall.elim

theorem firstFailure_of_error (hcall : request.IsCall) {answer : Answer}
    (h : request.route mounts clock = .error answer) :
    firstFailure (request.checks mounts clock) = some answer := by
  rcases route_cases hcall mounts clock with ⟨answer', hroute, hfirst⟩ | ⟨place, hroute, -⟩
  · rw [h] at hroute
    rw [hfirst, Except.error.inj hroute]
  · rw [h] at hroute
    cases hroute

theorem firstFailure_of_ok (hcall : request.IsCall) {place : Nat × Visit}
    (h : request.route mounts clock = .ok place) : firstFailure (request.checks mounts clock) = none := by
  rcases route_cases hcall mounts clock with ⟨answer, hroute, -⟩ | ⟨place', -, hfirst⟩
  · rw [h] at hroute
    cases hroute
  · exact hfirst

end Request

end RoutedCache

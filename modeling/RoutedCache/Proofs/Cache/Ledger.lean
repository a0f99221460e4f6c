import RoutedCache.Proofs.Cache.Locks
import RoutedCache.Proofs.Store.Documents

/-!
# The ledger of a run

The ledger of a run tells for each store which calls were made and what the store replied, in the order in which
they were made.  What a key holds follows from the ledger alone (`found`), and a record that is found at a key is
that of the latest put at the key (`put_of_found`): the number of this put tells equal records apart.
-/

namespace RoutedCache

/-- A call that a job has made, with the reply to it. -/
structure Made where
  job : JobId
  call : StoreCall
  reply : Reply
deriving DecidableEq, Repr

/-- The calls made to each store, the latest first. -/
abbrev Ledger := Nat → List Made

/-- What a key holds after a call, given what it held before.  A call that fails changes nothing. -/
def afterCall (held : Option KeyRecord) (key : String) : StoreCall → Reply → Option KeyRecord
  | .put entry, .done => if key = entry.key then some entry else held
  | .delete key', .done => if key = key' then none else held
  | _, _ => held

/-- What a key holds after calls, given what the keys held before. -/
def found (held : String → Option KeyRecord) (key : String) : List Made → Option KeyRecord
  | [] => held key
  | made :: before => afterCall (found held key before) key made.call made.reply

/-- The number of the latest call that has put a record at a key. -/
def latestPut (key : String) : List Made → Option Nat
  | [] => none
  | made :: before =>
    match made.call, made.reply with
    | .put entry, .done => if entry.key = key then some before.length else latestPut key before
    | _, _ => latestPut key before

/-- Every record that a call was answered with is what its key held. -/
def Consistent (held : String → Option KeyRecord) : List Made → Prop
  | [] => True
  | made :: before =>
    (∀ key entry, made.call = .get key → made.reply = .found entry → entry = found held key before) ∧
      Consistent held before

/-- The call that a job has just made, its store and the reply. -/
def Stage.made? : Stage → Option (Nat × StoreCall × Reply)
  | .returned store visit reply => visit.call?.map (store, ·, reply)
  | _ => none

namespace Ledger

def add (ledger : Ledger) (store : Nat) (made : Made) : Ledger :=
  fun s => if s = store then made :: ledger s else ledger s

/-- The ledger with a call that a job may have made. -/
def enter (ledger : Ledger) (id : JobId) : Option (Nat × StoreCall × Reply) → Ledger
  | some (store, call, reply) => ledger.add store ⟨id, call, reply⟩
  | none => ledger

/-- The ledger after an event: a run that has made a call ends with the reply to it. -/
def note (ledger : Ledger) (c : Cache) : Event → Ledger
  | .run id => ledger.enter id (((c.run id).stage? id).bind Stage.made?)
  | _ => ledger

def along (ledger : Ledger) (c : Cache) : List Event → Ledger
  | [] => ledger
  | event :: events => (ledger.note c event).along (c.step event) events

end Ledger

/-- The ledger of a run from its first event on. -/
def Cache.ledger (c : Cache) (events : List Event) : Ledger := Ledger.along (fun _ => []) c events

/-! ### Records and their puts -/

variable {held : String → Option KeyRecord} {key : String} {entry : KeyRecord}

theorem latestPut_lt {calls : List Made} {p : Nat} (h : latestPut key calls = some p) : p < calls.length := by
  induction calls with
  | nil => cases h
  | cons made before ih =>
    unfold latestPut at h
    rw [List.length_cons]
    split at h
    next =>
      split at h
      next => cases h; omega
      next => have := ih h; omega
    next => have := ih h; omega

theorem latestPut_skip {made : Made} {before : List Made}
    (h : ∀ entry, made.call = .put entry → made.reply = .done → entry.key ≠ key) :
    latestPut key (made :: before) = latestPut key before := by
  rw [latestPut]
  split
  next entry hcall hreply => rw [if_neg (h entry hcall hreply)]
  next => rfl

/-- A record that is found at a key was put there by the latest put, or it was there before all calls. -/
theorem put_of_found {calls : List Made} (h : found held key calls = some entry) :
    latestPut key calls = none ∧ held key = some entry ∨
      ∃ later made before, calls = later ++ made :: before ∧ latestPut key calls = some before.length ∧
        made.call = .put entry ∧ made.reply = .done ∧ entry.key = key := by
  induction calls with
  | nil => exact .inl ⟨rfl, h⟩
  | cons made before ih =>
    have hskip (hf : found held key before = some entry)
        (hl : latestPut key (made :: before) = latestPut key before) :
        latestPut key (made :: before) = none ∧ held key = some entry ∨
          ∃ later made' before', made :: before = later ++ made' :: before' ∧
            latestPut key (made :: before) = some before'.length ∧ made'.call = .put entry ∧
            made'.reply = .done ∧ entry.key = key := by
      rcases ih hf with ⟨hnone, hheld⟩ | ⟨later, made', before', rfl, hput, hrest⟩
      · exact .inl ⟨hl.trans hnone, hheld⟩
      · exact .inr ⟨made :: later, made', before', rfl, hl.trans hput, hrest⟩
    unfold found afterCall at h
    split at h
    next entry' hcall hreply =>
      split at h
      next hkey =>
        cases h
        exact .inr ⟨[], made, before, rfl, by simp [latestPut, hcall, hreply, hkey], hcall, hreply, hkey.symm⟩
      next hkey =>
        refine hskip h (latestPut_skip fun entry'' hcall' _ heq => hkey ?_)
        rw [hcall] at hcall'
        cases hcall'
        exact heq.symm
    next key' hcall hreply =>
      split at h
      next => cases h
      next => exact hskip h (latestPut_skip fun entry'' hcall' => by rw [hcall] at hcall'; cases hcall')
    next hput _ => exact hskip h (latestPut_skip fun entry' hcall hreply => absurd hreply (hput entry' hcall))

/-- After a delete nothing is found at the key until the next put there. -/
theorem latestPut_of_deleted {later before : List Made} {id : JobId} {p : Option Nat}
    (hp : latestPut key before = p)
    (hf : found held key (later ++ ⟨id, .delete key, .done⟩ :: before) = some entry) :
    latestPut key (later ++ ⟨id, .delete key, .done⟩ :: before) ≠ p := by
  induction later with
  | nil => simp [found, afterCall] at hf
  | cons made later ih =>
    -- A put after the delete has a later place than any that was there before it.
    have hnew : ∀ n, n = (later ++ ⟨id, .delete key, .done⟩ :: before).length → some n ≠ p := by
      rintro n rfl heq
      have hlt := latestPut_lt (hp.trans heq.symm)
      simp at hlt
      omega
    rw [List.cons_append] at hf ⊢
    unfold latestPut
    unfold found afterCall at hf
    split
    next entry' hcall hreply =>
      rw [hcall, hreply] at hf
      dsimp only at hf
      split
      next => exact hnew _ rfl
      next hkey =>
        rw [if_neg (Ne.symm hkey)] at hf
        exact ih hf
    next hput =>
      split at hf
      next entry' hcall hreply => exact absurd hreply (hput entry' hcall)
      next key' hcall hreply =>
        split at hf
        next => cases hf
        next => exact ih hf
      next => exact ih hf

theorem Consistent.get {calls later before : List Made} {id : JobId} {entry : Option KeyRecord}
    (h : Consistent held calls) (hs : calls = later ++ ⟨id, .get key, .found entry⟩ :: before) :
    entry = found held key before := by
  induction later generalizing calls with
  | nil =>
    subst hs
    exact h.1 key entry rfl rfl
  | cons made later ih =>
    subst hs
    exact ih h.2 rfl

/-- A record is found and deleted by one job at most: two jobs that have done so with the same key have met
different puts. -/
theorem latestPut_ne {calls later₁ later₂ before₁ before₂ : List Made} {id₁ id₂ : JobId}
    {entry₁ entry₂ : KeyRecord} (h : Consistent held calls) (hne : id₁ ≠ id₂)
    (h₁ : calls = later₁ ++ ⟨id₁, .delete key, .done⟩ :: ⟨id₁, .get key, .found (some entry₁)⟩ :: before₁)
    (h₂ : calls = later₂ ++ ⟨id₂, .delete key, .done⟩ :: ⟨id₂, .get key, .found (some entry₂)⟩ :: before₂)
    (hle : before₁.length ≤ before₂.length) : latestPut key before₁ ≠ latestPut key before₂ := by
  have hsuffix : (⟨id₁, .delete key, .done⟩ :: ⟨id₁, .get key, .found (some entry₁)⟩ :: before₁ : List Made) <:+
      ⟨id₂, .delete key, .done⟩ :: ⟨id₂, .get key, .found (some entry₂)⟩ :: before₂ :=
    List.suffix_of_suffix_length_le ⟨later₁, h₁.symm⟩ ⟨later₂, h₂.symm⟩ (by simpa using hle)
  -- The get and the delete of one job stand together, so the pair of the other one is wholly before them.
  obtain ⟨mid, hmid⟩ := hsuffix
  match mid, hmid with
  | [], hmid =>
    cases hmid
    exact absurd rfl hne
  | [_], hmid => cases hmid
  | _ :: _ :: mid, hmid =>
    obtain ⟨-, -, hbefore⟩ : _ ∧ _ ∧ _ := by simpa using hmid
    have hsplit : calls = (later₂ ++ [⟨id₂, .delete key, .done⟩]) ++
        ⟨id₂, .get key, .found (some entry₂)⟩ :: before₂ := by
      rw [h₂, List.append_assoc]
      rfl
    have hget : some entry₂ = found held key before₂ := h.get hsplit
    have hfound : found held key (mid ++ ⟨id₁, .delete key, .done⟩ ::
        ⟨id₁, .get key, .found (some entry₁)⟩ :: before₁) = some entry₂ := by rw [hbefore, ← hget]
    have hput : latestPut key (⟨id₁, .get key, .found (some entry₁)⟩ :: before₁) = latestPut key before₁ :=
      latestPut_skip fun entry hcall => nomatch hcall
    rw [← hbefore]
    exact (latestPut_of_deleted hput hfound).symm

/-! ### Replies of a store -/

/-- The replies that a call may get, given what a look-up of each key finds. -/
def Reply.Fair (held : String → Option KeyRecord) (reply : Reply) : StoreCall → Prop
  | .put _ | .delete _ => reply = .done ∨ ∃ fault, reply = .failed fault
  | .get key => reply = .found (held key) ∨ ∃ fault, reply = .failed fault
  | .list _ => True

theorem Reply.fair_failed (held : String → Option KeyRecord) (fault : StoreFault) (call : StoreCall) :
    (Reply.failed fault).Fair held call := by
  cases call with
  | list start => trivial
  | _ => exact .inr ⟨fault, rfl⟩

namespace Store

/-- What a look-up of the key finds. -/
def find? : Store → String → Option KeyRecord
  | memory entries, key => (entries.get? key).map (⟨key, ·⟩)
  | document _ _ _ documents, key => (documents.find? key).join
  | faulty _ entries, key => (entries.get? key).map (⟨key, ·⟩)

private theorem find?_performEntries (entries : KeyMap Record) (call : StoreCall) (key : String) :
    ((performEntries entries call).2.get? key).map (⟨key, ·⟩) =
      afterCall ((entries.get? key).map (⟨key, ·⟩)) key call (performEntries entries call).1 := by
  cases call with
  | put entry =>
    simp only [performEntries, KeyMap.get?_insert, afterCall]
    split
    next heq => rw [Option.map_some, heq]
    next => rfl
  | delete key' =>
    simp only [performEntries, KeyMap.get?_erase, afterCall]
    split <;> rfl
  | _ => rfl

private theorem find?_performDocuments (documents : Documents) (call : StoreCall) (key : String) :
    ((performDocuments documents call).2.find? key).join =
      afterCall (documents.find? key).join key call (performDocuments documents call).1 := by
  cases call with
  | put entry =>
    simp only [performDocuments, Documents.put, Documents.find?, KeyMap.get?_insert, afterCall]
    by_cases heq : key = entry.key
    · simp [heq, KeyRecord.decode?_encode]
    · simp [heq]
  | get key' =>
    simp only [performDocuments]
    split <;> rfl
  | delete key' =>
    simp only [performDocuments, Documents.find?, KeyMap.get?_erase, afterCall]
    by_cases heq : key = key'
    · simp [heq]
    · simp [heq]
  | list start => rfl

/-- A call changes what a key holds as its reply says. -/
theorem find?_perform (store : Store) (call : StoreCall) (key : String) :
    (store.perform call).2.find? key = afterCall (store.find? key) key call (store.perform call).1 := by
  cases store with
  | memory entries => exact find?_performEntries entries call key
  | document file collection opened documents => exact find?_performDocuments documents call key
  | faulty faults entries =>
    simp only [perform]
    split
    next => cases call <;> rfl
    next =>
      have hwiden : faults.widen call = call ∨ ∃ start start', call = .list start ∧
          faults.widen call = .list start' := by
        cases call with
        | list start => exact .inr ⟨start, _, rfl, rfl⟩
        | _ => exact .inl rfl
      rcases hwiden with heq | ⟨start, start', rfl, heq⟩
      · simp only [heq]
        exact find?_performEntries entries call key
      · simp only [heq]
        rfl

theorem fair_perform (store : Store) (call : StoreCall) : (store.perform call).1.Fair store.find? call := by
  cases store with
  | memory entries =>
    cases call with
    | list start => trivial
    | _ => exact .inl rfl
  | document file collection opened documents =>
    cases call with
    | get key =>
      show (performDocuments documents (.get key)).1 = .found (documents.find? key).join ∨
        ∃ fault, (performDocuments documents (.get key)).1 = .failed fault
      simp only [performDocuments]
      split
      next entry hfind => exact .inl (by rw [hfind]; rfl)
      next => exact .inr ⟨_, rfl⟩
    | list start => trivial
    | _ => exact .inl rfl
  | faulty faults entries =>
    simp only [perform]
    split
    next fault _ => exact Reply.fair_failed ..
    next =>
      cases call with
      | list start => trivial
      | _ => exact .inl rfl

end Store

namespace Shelf

theorem find?_perform (shelf : Shelf) (call : StoreCall) (key : String) :
    (shelf.perform call).2.store.find? key =
      afterCall (shelf.store.find? key) key call (shelf.perform call).1 := by
  unfold Shelf.perform
  split
  next => cases call <;> rfl
  next => exact Store.find?_perform shelf.store call key

theorem fair_perform (shelf : Shelf) (call : StoreCall) :
    (shelf.perform call).1.Fair shelf.store.find? call := by
  unfold Shelf.perform
  split
  next => exact Reply.fair_failed ..
  next => exact Store.fair_perform shelf.store call

end Shelf

end RoutedCache

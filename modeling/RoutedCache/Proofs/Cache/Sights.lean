import RoutedCache.Proofs.Cache.Serve
import RoutedCache.Proofs.Cache.Touch

/-!
# What a read meets

The sight of a read tells what it has met in its store: why the store has refused it, what the store kept under the
key at the look-up, and what the clock showed when the read looked at the record.  The refusals are those of the store
itself; they hang on no content (`Shelf.reply_get`).  The sight decides the answer (`Sight.answer`), and every event
keeps the two in step (`Cache.Sees.step`), whatever the other jobs do.
-/

namespace RoutedCache

/-- Why a store refuses a call, whatever it keeps. -/
def Store.refusal? (store : Store) (call : StoreCall) : Option StoreFault :=
  match store with
  | .faulty faults _ => faults.refusal? call
  | _ => none

/-- Why a call to the store of a shelf fails at present, whatever the store keeps. -/
def Shelf.refusal? (shelf : Shelf) (call : StoreCall) : Option StoreFault :=
  shelf.outage?.or (shelf.store.refusal? call)

structure Sight where
  /-- Why the store has refused its lock or a call. -/
  refused : Option StoreFault := none
  /-- What the store kept under the key at the look-up. -/
  cell : Option Cell := none
  /-- What the clock showed when the reply to the look-up was taken up. -/
  seen : Option Instant := none
deriving DecidableEq

namespace Sight

/-- What the calls of the read have come to: a fault, or the record if there is one. -/
def found (sight : Sight) : Except StoreFault (Option Record) :=
  match sight.refused, sight.cell with
  | some fault, _ => .error fault
  | none, none => .ok none
  | none, some cell =>
    match cell.record? with
    | some record => .ok (some record)
    | none => .error .undecodable

def answer (sight : Sight) (key : String) : Answer :=
  match sight.found, sight.seen with
  | .error fault, _ => .failed (.backend fault)
  | .ok none, _ => .failed (.notFound key)
  | .ok (some _), none => .broken
  | .ok (some record), some now =>
    if record.isValidAt now then .record record else .failed (.notFound key)

/-- The sight with what a job meets at the beginning of its turn: the lock of its store, or the clock. -/
def looked (sight : Sight) (c : Cache) (job : Job) : Stage → Sight
  | .ready =>
    { sight with refused := (job.request.store? c.mounts).bind fun s => c.shelves[s]?.bind Shelf.lockRefusal? }
  | .returned _ (.get _) _ => { sight with seen := c.clock.read? }
  | _ => sight

/-- The sight with a call that is made on a shelf. -/
def called (sight : Sight) (shelf : Shelf) (call : StoreCall) : Sight :=
  { sight with
    refused := shelf.refusal? call
    cell := match call with
      | .get key => shelf.store.cell? key
      | _ => sight.cell }

/-- The sight after a turn from one stage to another: the job may have made a call. -/
def turned (sight : Sight) (c : Cache) (id : JobId) (job : Job) (old new : Stage) : Sight :=
  match new.made? with
  | some (s, call, _) =>
    match c.shelfFor? id s old with
    | some shelf => (sight.looked c job old).called shelf call
    | none => sight.looked c job old
  | none => sight.looked c job old

/-- The sight of a job after an event. -/
def note (id : JobId) (sight : Sight) (c : Cache) : Event → Sight
  | .run j =>
    if j = id then
      match c.jobs[id]?, (c.run id).stage? id with
      | some job, some stage => sight.turned c id job job.stage stage
      | _, _ => sight
    else sight
  | _ => sight

def along (id : JobId) (sight : Sight) (c : Cache) : List Event → Sight
  | [] => sight
  | event :: events => (sight.note id c event).along id (c.step event) events

end Sight

/-- The sight of a job in a run from its first event on. -/
def Cache.sight (c : Cache) (events : List Event) (id : JobId) : Sight := Sight.along id {} c events

/-! ### Replies -/

/-- The reply to a look-up tells of a fault, of no record or of a record. -/
inductive Reply.Tells : Reply → Except StoreFault (Option Record) → Prop
  | fault {fault} : Tells (.failed fault) (.error fault)
  | absent : Tells (.found none) (.ok none)
  | present {entry : KeyRecord} : Tells (.found (some entry)) (.ok (some entry.record))

namespace Store

/-- A store that does not refuse a look-up tells what it keeps. -/
private theorem reply_get {store : Store} {key : String} (h : store.refusal? (.get key) = none) :
    (store.perform (.get key)).1.Tells ({ cell := store.cell? key : Sight }).found := by
  have hvalue (entries : KeyMap Record) :
      (Reply.found ((entries.get? key).map (⟨key, ·⟩))).Tells
        ({ cell := (entries.get? key).map .value : Sight }).found := by
    cases entries.get? key with
    | none => exact .absent
    | some => exact .present
  cases store with
  | memory entries => exact hvalue entries
  | document _ _ _ documents =>
    simp only [perform, performDocuments, Documents.find?, cell?]
    cases hget : documents.get? key with
    | none => exact .absent
    | some text =>
      cases hdecode : KeyRecord.decode? text with
      | none => simpa [hdecode, Sight.found, Cell.record?, Documents.record?] using Reply.Tells.fault
      | some entry => simpa [hdecode, Sight.found, Cell.record?, Documents.record?] using Reply.Tells.present
  | faulty faults entries =>
    replace h : faults.refusal? (.get key) = none := h
    simp only [perform, h]
    exact hvalue entries

private theorem reply_of_refusal {store : Store} {call : StoreCall} {fault : StoreFault}
    (h : store.refusal? call = some fault) : store.perform call = (.failed fault, store) := by
  cases store with
  | faulty faults entries =>
    replace h : faults.refusal? call = some fault := h
    simp only [perform, h]
  | _ => cases h

private theorem reply_of_served {store : Store} {call : StoreCall} {key : String} (hk : call.key? = some key)
    (hg : ∀ key', call ≠ .get key') (h : store.refusal? call = none) : (store.perform call).1 = .done := by
  have hentries (entries : KeyMap Record) : (performEntries entries call).1 = .done := by
    cases call with
    | get => exact absurd rfl (hg _)
    | list => cases hk
    | _ => rfl
  cases store with
  | memory entries => exact hentries entries
  | document =>
    cases call with
    | get => exact absurd rfl (hg _)
    | list => cases hk
    | _ => rfl
  | faulty faults entries =>
    replace h : faults.refusal? call = none := h
    simp only [perform, h, faults.widen_of_key hk]
    exact hentries entries

end Store

namespace Shelf

variable {shelf : Shelf} {key : String}

private theorem reply_of_refusal {call : StoreCall} {fault : StoreFault} (h : shelf.refusal? call = some fault) :
    (shelf.perform call).1 = .failed fault := by
  unfold refusal? at h
  unfold perform
  split
  next hout =>
    rw [hout] at h
    cases h
    rfl
  next hout =>
    rw [hout, Option.none_or] at h
    simp only [Store.reply_of_refusal h]

/-- The reply to a look-up tells why it was refused, or what the store keeps. -/
theorem reply_get (shelf : Shelf) (key : String) : (shelf.perform (.get key)).1.Tells
    ({ refused := shelf.refusal? (.get key), cell := shelf.store.cell? key : Sight }).found := by
  cases h : shelf.refusal? (.get key) with
  | some fault =>
    rw [reply_of_refusal h]
    exact .fault
  | none =>
    obtain ⟨hout, hstore⟩ := Option.or_eq_none_iff.1 h
    unfold perform
    rw [hout]
    exact Store.reply_get hstore

/-- A put or a deletion is refused or done. -/
theorem reply_change (shelf : Shelf) {call : StoreCall} (hk : call.key? = some key) (hg : ∀ key', call ≠ .get key') :
    (shelf.perform call).1 =
      match shelf.refusal? call with
      | some fault => .failed fault
      | none => .done := by
  cases h : shelf.refusal? call with
  | some fault => exact reply_of_refusal h
  | none =>
    obtain ⟨hout, hstore⟩ := Option.or_eq_none_iff.1 h
    unfold perform
    rw [hout]
    exact Store.reply_of_served hk hg hstore

end Shelf

/-! ### Answers -/

namespace Sight

variable {sight : Sight} {key : String}

/-- The entry was there and could not be decoded. -/
def Undecodable (sight : Sight) : Prop := ∃ cell, sight.cell = some cell ∧ cell.record? = none

/-- The entry could be decoded, and its record has this validity when it is looked at. -/
def Holds (sight : Sight) (record : Record) (valid : Bool) : Prop :=
  ∃ cell now, sight.cell = some cell ∧ cell.record? = some record ∧ sight.seen = some now ∧
    record.isValidAt now = valid

/-- The answer tells a miss, a fault and a hit apart. -/
structure TellsApart (sight : Sight) (key : String) (answer : Answer) : Prop where
  missed : ∀ stored, answer = .failed (.notFound stored) ↔ key = stored ∧ sight.refused = none ∧
    (sight.cell = none ∨ ∃ record, sight.Holds record false)
  failed : ∀ fault, answer = .failed (.backend fault) ↔ sight.refused = some fault ∨
    sight.refused = none ∧ sight.Undecodable ∧ .undecodable = fault
  hit : ∀ record, answer = .record record ↔ sight.refused = none ∧ sight.Holds record true
  /-- There is no other answer but while the clock shows no time. -/
  exhaustive : (∃ stored, answer = .failed (.notFound stored)) ∨ (∃ fault, answer = .failed (.backend fault)) ∨
    (∃ record, answer = .record record) ∨ answer = .broken ∧ sight.refused = none ∧ sight.seen = none

theorem tellsApart (sight : Sight) (key : String) : sight.TellsApart key (sight.answer key) := by
  obtain ⟨refused, cell, seen⟩ := sight
  cases refused with
  | some fault => constructor <;> simp [answer, found]
  | none =>
    cases cell with
    | none => constructor <;> simp [answer, found, Undecodable, Holds]
    | some cell =>
      cases hrecord : cell.record? with
      | none => constructor <;> simp [answer, found, Undecodable, Holds, hrecord]
      | some record =>
        cases seen with
        | none => constructor <;> simp [answer, found, Undecodable, Holds, hrecord]
        | some now =>
          cases hvalid : record.isValidAt now with
          | false => constructor <;> simp [answer, found, Undecodable, Holds, hrecord, hvalid]
          | true => constructor <;> simp [answer, found, Undecodable, Holds, hrecord, hvalid]

end Sight

/-! ### Where a read stands -/

/-- The transitions that a read has before it at most. -/
def Stage.toGo : Stage → Nat
  | .ready => 6
  | .queued .. => 5
  | .pausing _ (.get _) _ => 4
  | .returned _ (.get _) _ => 3
  | .pausing .. => 2
  | .returned .. => 1
  | _ => 0

namespace Sight

/-- What the sight of a read of the key is at a stage, given the store that serves the key, what it keeps under the key
at present and whether the token of the read is cancelled. -/
inductive Fits (key : String) (s : Nat) (kept : Option Cell) (cancelled : Bool) (sight : Sight) : Stage → Prop
  | ready : Fits key s kept cancelled sight .ready
  | queued (h : sight.refused = none) : Fits key s kept cancelled sight (.queued s (.get key))
  | pausing {due} (h : sight.refused = none) : Fits key s kept cancelled sight (.pausing s (.get key) due)
  | returned {reply} (h : reply.Tells sight.found) (hk : kept = sight.cell) :
      Fits key s kept cancelled sight (.returned s (.get key) reply)
  | toBurn {record due} (hr : sight.refused = none) (hh : sight.Holds record true) (hk : kept = sight.cell) :
      Fits key s kept cancelled sight (.pausing s (.burn key record) due)
  | burn {record reply} (hh : sight.Holds record true)
      (hr : reply = match sight.refused with
        | some fault => .failed fault
        | none => .done) : Fits key s kept cancelled sight (.returned s (.burn key record) reply)
  | finished {answer} (h : answer = sight.answer key) : Fits key s kept cancelled sight (.finished answer)
  | cancelled (h : cancelled = true) : Fits key s kept cancelled sight (.finished (.failed .cancelled))

variable {sight : Sight} {key : String} {s : Nat} {kept : Option Cell} {cancelled : Bool}

theorem Holds.answer {record : Record} (h : sight.Holds record true) (hr : sight.refused = none) (key : String) :
    sight.answer key = .record record := ((sight.tellsApart key).hit record).2 ⟨hr, h⟩

theorem answer_of_refused {fault : StoreFault} (h : sight.refused = some fault) (key : String) :
    sight.answer key = .failed (.backend fault) := ((sight.tellsApart key).failed fault).2 (.inl h)

private theorem found_eq_some {record : Record} (h : sight.found = .ok (some record)) :
    sight.refused = none ∧ ∃ cell, sight.cell = some cell ∧ cell.record? = some record := by
  unfold found at h
  split at h
  next => cases h
  next => cases h
  next cell hrefused hcell =>
    split at h
    next hrecord =>
      cases h
      exact ⟨hrefused, cell, hcell, hrecord⟩
    next => cases h

/-- A read goes on from its look-up as its sight says. -/
theorem next_of_tells (sight : Sight) {reply : Reply} (h : reply.Tells sight.found) (clock : Clock)
    (hc : sight.seen = clock.read?) (cancelled : Bool) : (Visit.get key).next clock cancelled reply = .answer (sight.answer key) ∨
      ∃ record, sight.refused = none ∧ sight.Holds record true ∧
        (Visit.get key).next clock cancelled reply = .stay (.burn key record) := by
  generalize hfound : sight.found = found at h
  cases h with
  | @fault fault =>
    have hanswer : sight.answer key = .failed (.backend fault) := by simp only [answer, hfound]
    exact .inl (congrArg Visit.Turn.answer hanswer.symm)
  | absent =>
    have hanswer : sight.answer key = .failed (.notFound key) := by simp only [answer, hfound]
    exact .inl (congrArg Visit.Turn.answer hanswer.symm)
  | @present entry =>
    obtain ⟨hrefused, cell, hcell, hrecord⟩ := found_eq_some hfound
    show Visit.readOn key clock.read? (some entry) = _ ∨ ∃ record, _ ∧ _ ∧
      Visit.readOn key clock.read? (some entry) = _
    rw [← hc]
    cases hseen : sight.seen with
    | none => exact .inl (by simp only [Visit.readOn, answer, hfound, hseen])
    | some now =>
      cases hvalid : entry.record.isValidAt now with
      | false => exact .inl (by simp [Visit.readOn, answer, hfound, hseen, hvalid])
      | true =>
        have hholds : sight.Holds entry.record true := ⟨cell, now, hcell, hrecord, hseen, hvalid⟩
        cases hburn : entry.record.metadata.burnAfterReading with
        | false =>
          rw [hholds.answer hrefused]
          exact .inl (by simp [Visit.readOn, hvalid, hburn])
        | true => exact .inr ⟨entry.record, hrefused, hholds, by simp [Visit.readOn, hvalid, hburn]⟩

/-! ### Transitions -/

variable {c : Cache} {id : JobId} {job : Job} {old new : Stage} {shelf shelf' : Shelf} {shelves : List Shelf}
  {other : Shelf} {record : Record}

private theorem turned_returned {visit : Visit} {call : StoreCall} (hs : c.shelfFor? id s old = some shelf)
    (hc : visit.call? = some call) (sight : Sight) (reply : Reply) :
    sight.turned c id job old (.returned s visit reply) = (sight.looked c job old).called shelf call := by
  simp [turned, Stage.made?, hc, hs]

private theorem turned_stage (sight : Sight) (turn : Visit.Turn) :
    sight.turned c id job old turn.stage = sight.looked c job old := by
  cases turn <;> rfl

/-- A look-up changes no store. -/
private theorem store_get (shelf : Shelf) (key : String) : (shelf.perform (.get key)).2.store = shelf.store := by
  refine Shelf.store_perform fun hdone => ?_
  have htells := shelf.reply_get key
  rw [hdone] at htells
  cases htells

/-- A look-up tells what is kept under the key from then on. -/
private theorem Fits.lookup (hs : c.shelves[s]? = some other) (sight : Sight) :
    Fits key s (cellAt (c.shelves.set s (shelf.perform (.get key)).2) s key) cancelled (sight.called shelf (.get key))
      (.returned s (.get key) (shelf.perform (.get key)).1) := by
  refine .returned (shelf.reply_get key) ?_
  rw [cellAt_of_shelf (List.getElem?_set_self (List.getElem?_eq_some_iff.1 hs).1), store_get]
  rfl

/-- A read with the lock looks its key up or waits before it does. -/
private theorem Fits.visits_get (hl : (sight.looked c job old).refused = none) (hs : c.shelves[s]? = some other)
    (hfor : c.shelfFor? id s old = some shelf) (hv : Visits c id s shelf (.get key) new shelf') :
    Fits key s (cellAt (c.shelves.set s shelf') s key) cancelled (sight.turned c id job old new) new ∧
      new.toGo < 5 := by
  cases hv with
  | pause => exact ⟨.pausing hl, (by decide : 4 < 5)⟩
  | call hc =>
    cases hc
    rw [turned_returned hfor rfl]
    exact ⟨.lookup hs _, (by decide : 3 < 5)⟩

/-- A read that is to burn what it has found deletes it or waits before it does. -/
private theorem Fits.visits_burn (hl : (sight.looked c job old).refused = none)
    (hh : (sight.looked c job old).Holds record true) (hs : c.shelves[s]? = some shelf)
    (hk : cellAt c.shelves s key = (sight.looked c job old).cell) (hfor : c.shelfFor? id s old = some shelf)
    (hv : Visits c id s shelf (.burn key record) new shelf') :
    Fits key s (cellAt (c.shelves.set s shelf') s key) cancelled (sight.turned c id job old new) new ∧
      new.toGo < 3 := by
  cases hv with
  | pause =>
    refine ⟨.toBurn hl hh ?_, (by decide : 2 < 3)⟩
    have hsame := cellAt_of_shelf (List.getElem?_set_self (a := shelf) (List.getElem?_eq_some_iff.1 hs).1) key
    exact hsame.trans ((cellAt_of_shelf hs key).symm.trans hk)
  | call hc =>
    cases hc
    rw [turned_returned hfor rfl]
    exact ⟨.burn hh (shelf.reply_change rfl (by simp)), (by decide : 1 < 3)⟩

/-- The other jobs may cancel tokens, and they change the store as long as the read is not at work in it. -/
theorem Fits.frame {kept' : Option Cell} {cancelled' : Bool} (h : sight.Fits key s kept cancelled old)
    (hk : old.inside? = some s → kept' = kept) (hc : cancelled = true → cancelled' = true) :
    sight.Fits key s kept' cancelled' old := by
  cases h with
  | ready => exact .ready
  | queued hr => exact .queued hr
  | pausing hr => exact .pausing hr
  | returned ht hkept => exact .returned ht ((hk rfl).trans hkept)
  | toBurn hr hh hkept => exact .toBurn hr hh ((hk rfl).trans hkept)
  | burn hh hr => exact .burn hh hr
  | finished ha => exact .finished ha
  | cancelled hcancelled => exact .cancelled (hc hcancelled)

/-- A read that waits has its sight in step with its stage whenever it is looked at. -/
theorem Fits.waits (h : sight.Fits key s kept cancelled old) (hold : ∀ store visit reply, old ≠ .returned store visit reply)
    (c : Cache) (id : JobId) (job : Job) : (sight.turned c id job old old).Fits key s kept cancelled old := by
  cases h with
  | ready => exact .ready
  | queued hr => exact .queued hr
  | pausing hr => exact .pausing hr
  | returned => exact absurd rfl (hold _ _ _)
  | toBurn hr hh hk => exact .toBurn hr hh hk
  | burn => exact absurd rfl (hold _ _ _)
  | finished ha => exact .finished ha
  | cancelled hc => exact .cancelled hc

theorem Fits.sweeping? (h : sight.Fits key s kept cancelled old) : old.sweeping? = none := by
  cases h <;> rfl

private theorem toGo_returned (store : Nat) (visit : Visit) (reply : Reply) :
    0 < (Stage.returned store visit reply).toGo := by
  cases visit <;> exact Nat.zero_lt_succ _

/-- A read is answered on a reply as its sight says, or it goes on to burn what it has found. -/
private theorem Fits.next {store : Nat} {visit : Visit} {reply : Reply}
    (h : sight.Fits key s kept cancelled (.returned store visit reply)) (c : Cache) (job : Job) :
    visit.next c.clock (c.isCancelled job.token) reply =
        .answer ((sight.looked c job (.returned store visit reply)).answer key) ∨
      ∃ record, store = s ∧ visit = .get key ∧ (sight.looked c job (.returned store visit reply)).refused = none ∧
        (sight.looked c job (.returned store visit reply)).Holds record true ∧
        kept = (sight.looked c job (.returned store visit reply)).cell ∧
        visit.next c.clock (c.isCancelled job.token) reply = .stay (.burn key record) := by
  cases h with
  | returned htells hk =>
    rcases next_of_tells { sight with seen := c.clock.read? } htells c.clock rfl (c.isCancelled job.token) with
      hanswer | ⟨record, hrefused, hholds, hstay⟩
    · exact .inl hanswer
    · exact .inr ⟨record, rfl, rfl, hrefused, hholds, hk, hstay⟩
  | burn hholds hreply =>
    left
    subst hreply
    split
    next fault hrefused => exact congrArg Visit.Turn.answer (answer_of_refused hrefused key).symm
    next hrefused => exact congrArg Visit.Turn.answer (hholds.answer hrefused key).symm

variable {text : String} (hr : job.request = .read text) (hplace : c.mounts.place text = .ok (key, s))

include hr hplace

/-- A read with a store to go to does nothing without it. -/
private theorem Fits.not_aside (h : Fits key s kept cancelled sight old) : ¬Aside c job old new := by
  have hnot {r : Request} (heq : job.request = r) : r = .read text := heq.symm.trans hr
  intro ha
  cases ha with
  | answer hroute =>
    rw [hr] at hroute
    simp only [Request.route, hplace] at hroute
    cases hroute
  | sweep heq => cases hnot heq
  | sweeper heq => cases hnot heq
  | shutdown heq => cases hnot heq
  | await heq => cases hnot heq
  | _ => cases h

/-- What a read asks for. -/
private theorem Fits.wants {store : Nat} {visit : Visit} (h : Fits key s kept cancelled sight old)
    (hw : Wants c job old store visit) : old = .ready ∧ store = s ∧ visit = .get key := by
  cases hw with
  | call hroute =>
    rw [hr] at hroute
    simp only [Request.route, hplace] at hroute
    cases hroute
    exact ⟨rfl, rfl, rfl⟩
  | mount => cases h

/-- What a read meets when it comes to its store. -/
private theorem refused_ready (hs : c.shelves[s]? = some shelf) (sight : Sight) :
    (sight.looked c job .ready).refused = shelf.lockRefusal? := by
  have hroute : job.request.route c.mounts c.clock = .ok (s, .get key) := by rw [hr]; simp only [Request.route, hplace]
  have hcall : job.request.IsCall := by rw [hr]; trivial
  show (job.request.store? c.mounts).bind _ = _
  rw [Course.store?_of_ok hcall hroute, Option.bind_some, hs, Option.bind_some]

/-- Every transition of a read keeps its sight in step with its stage and brings it nearer to its end. -/
theorem Fits.step (h : Fits key s (cellAt c.shelves s key) (c.isCancelled job.token) sight old)
    (ht : Transition c id job old new shelves) : Fits key s (cellAt shelves s key) (c.isCancelled job.token)
      (sight.turned c id job old new) new ∧ new.toGo < old.toGo := by
  cases ht with
  | aside ha => exact absurd ha (h.not_aside hr hplace)
  | refuse hw hs hfault =>
    obtain ⟨rfl, rfl, rfl⟩ := h.wants hr hplace hw
    rw [turned_stage]
    have hrefused := (refused_ready hr hplace hs sight).trans hfault
    exact ⟨.finished (answer_of_refused hrefused key).symm, (by decide : 0 < 6)⟩
  | cancel hw hs hopen hc =>
    obtain ⟨rfl, rfl, rfl⟩ := h.wants hr hplace hw
    exact ⟨.cancelled hc, (by decide : 0 < 6)⟩
  | queue hw hs hopen =>
    obtain ⟨rfl, rfl, rfl⟩ := h.wants hr hplace hw
    exact ⟨.queued ((refused_ready hr hplace hs sight).trans hopen), (by decide : 5 < 6)⟩
  | @enter _ s' _ shelf _ _ hw hs hopen _ _ hv =>
    obtain ⟨rfl, rfl, rfl⟩ := h.wants hr hplace hw
    obtain ⟨hfits, hlt⟩ := Fits.visits_get ((refused_ready hr hplace hs sight).trans hopen) hs (hw.shelfFor? hs) hv
    exact ⟨hfits, Nat.lt_trans hlt (by decide : 5 < 6)⟩
  | grant hs _ _ hv =>
    cases h with
    | queued hl => exact Fits.visits_get hl hs hs hv
  | @call store visit due _ shelf hs hc =>
    have hfor : c.shelfFor? id store (.pausing store visit due) = some shelf := hs
    rw [turned_returned hfor hc]
    cases h with
    | pausing =>
      cases hc
      exact ⟨.lookup hs _, (by decide : 3 < 4)⟩
    | toBurn _ hh =>
      cases hc
      exact ⟨.burn hh (Shelf.reply_change _ rfl (by simp)), (by decide : 1 < 2)⟩
  | stay hs hstay hv =>
    rcases h.next c job with hanswer | ⟨record, rfl, rfl, hrefused, hholds, hk, hburn⟩
    · cases hanswer.symm.trans hstay
    · cases hburn.symm.trans hstay
      exact Fits.visits_burn hrefused hholds hs hk hs hv
  | leave _ _ hleaves =>
    rw [turned_stage]
    cases hleaves with
    | cancelled hc =>
      cases h with
      | queued => exact ⟨.cancelled hc, (by decide : 0 < 5)⟩
    | next hnext hends =>
      rcases h.next c job with hanswer | ⟨record, -, -, -, -, -, hburn⟩
      · cases hanswer.symm.trans hnext
        exact ⟨.finished rfl, toGo_returned ..⟩
      · exact absurd (hnext.symm.trans hburn) (hends _)
    | held => cases h

/-- A read deletes nothing but the entry that it has decoded. -/
theorem Fits.burns (h : Fits key s (cellAt c.shelves s key) (c.isCancelled job.token) sight old) {s' : Nat}
    {stored : String} {reply : Reply} (ht : Transition c id job old (.returned s' (.burn stored record) reply) shelves) :
    stored = key ∧ s' = s ∧ ∃ cell, cellAt c.shelves s key = some cell ∧ cell.record? = some record := by
  have hholds {sight : Sight} (hh : sight.Holds record true) (hk : cellAt c.shelves s key = sight.cell) :
      ∃ cell, cellAt c.shelves s key = some cell ∧ cell.record? = some record := by
    obtain ⟨cell, -, hcell, hrecord, -⟩ := hh
    exact ⟨cell, hk.trans hcell, hrecord⟩
  generalize hnew : Stage.returned s' (.burn stored record) reply = new at ht
  cases ht with
  | aside ha => cases ha <;> cases hnew
  | refuse => exact absurd hnew (Stage.ne_turn rfl _)
  | cancel => exact absurd hnew (Stage.ne_turn rfl _)
  | queue => cases hnew
  | enter hw _ _ _ _ hv =>
    obtain ⟨rfl, rfl, rfl⟩ := h.wants hr hplace hw
    cases hv <;> cases hnew
  | grant _ _ _ hv =>
    cases h with
    | queued => cases hv <;> cases hnew
  | call =>
    cases hnew
    cases h with
    | toBurn _ hh hk => exact ⟨rfl, rfl, hholds hh hk⟩
  | stay _ hstay hv =>
    rcases h.next c job with hanswer | ⟨record, rfl, rfl, -, hh, hk, hburn⟩
    · cases hanswer.symm.trans hstay
    · cases hburn.symm.trans hstay
      cases hv with
      | pause => cases hnew
      | call =>
        cases hnew
        exact ⟨rfl, rfl, hholds hh hk⟩
  | leave => exact absurd hnew (Stage.ne_turn rfl _)

end Sight

/-! ### Runs -/

namespace Cache

variable {c first : Cache} {id : JobId} {job : Job} {sight : Sight}

/-- The sight of the job, if it is a read that has a store to go to, is in step with its stage. -/
def Sees (c : Cache) (id : JobId) (sight : Sight) : Prop :=
  ∀ (job : Job) (text key : String) (s : Nat), c.jobs[id]? = some job → job.request = .read text →
    c.mounts.place text = .ok (key, s) →
    sight.Fits key s (cellAt c.shelves s key) (c.isCancelled job.token) job.stage

private theorem note_run {stage : Stage} (hj : c.jobs[id]? = some job) (hs : (c.run id).stage? id = some stage)
    (sight : Sight) : sight.note id c (.run id) = sight.turned c id job job.stage stage := by
  simp [Sight.note, hj, hs]

private theorem note_same {event : Event} (hm : ¬event.Moves id) (sight : Sight) : sight.note id c event = sight := by
  cases event with
  | run j => exact if_neg hm
  | _ => rfl

/-- A turn of a read keeps its sight in step with its stage. -/
private theorem Sees.turn (hsees : c.Sees id sight) (h : c.LocksSound) (hj : c.jobs[id]? = some job) {text key : String}
    {s : Nat} (hr : job.request = .read text) (hplace : c.mounts.place text = .ok (key, s)) :
    ∃ stage, (c.run id).jobs[id]? = some { job with stage } ∧ (sight.note id c (.run id)).Fits key s
      (cellAt (c.run id).shelves s key) (c.isCancelled job.token) stage ∧
        ((∃ store visit reply, job.stage = .returned store visit reply) → stage.toGo < job.stage.toGo) := by
  have hfits := hsees job text key s hj hr hplace
  rcases h.run_cases hj with ⟨hrun, hnot⟩ | ⟨new, shelves, cancelled, sweeper, ht, -, hrun⟩
  · rw [note_run hj (by rw [hrun, stage?_eq hj]), hrun]
    exact ⟨job.stage, hj, hfits.waits hnot c id job, fun ⟨_, _, _, heq⟩ => absurd heq (hnot _ _ _)⟩
  · rw [note_run hj (by rw [hrun, stage?_settle hj, if_pos rfl]), hrun]
    obtain ⟨hnew, hlt⟩ := hfits.step hr hplace ht
    exact ⟨new, by rw [getElem?_settle hj, if_pos rfl], hnew, fun _ => hlt⟩

/-- Every event keeps the sight of a read in step with its stage. -/
theorem Sees.step (hsees : c.Sees id sight) (h : c.LocksSound) (event : Event) :
    (c.step event).Sees id (sight.note id c event) := by
  intro job' text key s hj' hr hplace
  rw [h.mounts_step event] at hplace
  cases hj : c.jobs[id]? with
  | none =>
    rw [(h.job_new hj hj').2]
    exact .ready
  | some job =>
    obtain ⟨stage, hstage⟩ := h.job_step hj event
    obtain rfl : job' = { job with stage } := Option.some.inj (hj'.symm.trans hstage)
    replace hr : job.request = .read text := hr
    have hfits := hsees job text key s hj hr hplace
    have hcancelled : c.isCancelled job.token = true → (c.step event).isCancelled job.token = true :=
      fun hc => h.cancelled_step hc event
    by_cases hm : event.Moves id
    · cases event with
      | run j =>
        obtain rfl : j = id := hm
        obtain ⟨new, hnew, hturn, -⟩ := hsees.turn h hj hr hplace
        obtain rfl : stage = new := congrArg Job.stage (Option.some.inj (hj'.symm.trans hnew))
        exact hturn.frame (fun _ => rfl) hcancelled
      | expire j =>
        obtain rfl : j = id := hm
        have hsame : c.step (.expire j) = c := by simp [Cache.step, expire, stage?_eq hj, hfits.sweeping?]
        rw [hsame] at hj' ⊢
        obtain rfl : stage = job.stage := congrArg Job.stage (Option.some.inj (hj'.symm.trans hj))
        exact hfits
      | _ => exact hm.elim
    · rw [note_same hm]
      have hsame := h.job_same hj hm
      obtain rfl : stage = job.stage := congrArg Job.stage (Option.some.inj (hj'.symm.trans hsame))
      refine hfits.frame (fun hi => ?_) hcancelled
      have hstore : (c.step event).stores[s]? = c.stores[s]? := h.store_same (by rw [inside?_eq hj, hi]) hm
      rw [cellAt_eq_bind, cellAt_eq_bind]
      exact congrArg (Option.bind · (·.cell? key)) hstore

theorem Sees.steps (hsees : c.Sees id sight) (h : c.LocksSound) (events : List Event) :
    (c.steps events).Sees id (sight.along id c events) := by
  induction events generalizing c sight with
  | nil => exact hsees
  | cons event events ih => exact ih (hsees.step h event) (h.step event)

/-- In every run the sight of a read is in step with its stage. -/
theorem sees (hu : first.Unused) (events : List Event) (id : JobId) :
    (first.steps events).Sees id (first.sight events id) := by
  have hnone : first.Sees id {} := by
    intro job _ _ _ hj
    rw [hu.jobs] at hj
    cases hj
  exact hnone.steps (.of_unused hu) events

/-! ### The end of a read -/

/-- There are turns of the job, with pauses between them, by which it is answered. -/
def EndsAlone (c : Cache) (id : JobId) : Prop :=
  ∃ events : List Event, (∀ event ∈ events, event = .run id ∨ ∃ ms, event = .elapse ms) ∧
    ∃ answer, (c.steps events).answer? id = some answer

namespace EndsAlone

theorem ended {answer : Answer} (hj : c.jobs[id]? = some job) (hs : job.stage = .finished answer) : c.EndsAlone id :=
  ⟨[], List.forall_mem_nil _, answer, answer?_eq_some_iff.2 ⟨job, hj, hs⟩⟩

theorem run (h : (c.step (.run id)).EndsAlone id) : c.EndsAlone id := by
  obtain ⟨events, halone, hend⟩ := h
  exact ⟨.run id :: events, List.forall_mem_cons.2 ⟨.inl rfl, halone⟩, hend⟩

theorem pause {ms : Nat} (h : (c.step (.elapse ms)).EndsAlone id) : c.EndsAlone id := by
  obtain ⟨events, halone, hend⟩ := h
  exact ⟨.elapse ms :: events, List.forall_mem_cons.2 ⟨.inr ⟨ms, rfl⟩, halone⟩, hend⟩

end EndsAlone

section Ends

variable {text key : String} {s : Nat} (hr : job.request = .read text)
  (hplace : c.mounts.place text = .ok (key, s))

include hr hplace

/-- A read that has the lock of its store comes to its end. -/
theorem Sees.ends (hsees : c.Sees id sight) (h : c.LocksSound) (hj : c.jobs[id]? = some job)
    (hlt : job.stage.toGo < 5) : c.EndsAlone id := by
  -- Every turn leaves the read with less to do.
  induction hn : job.stage.toGo using Nat.strongRecOn generalizing c job sight with
  | _ n ih =>
    subst hn
    have hreturned (hstage : ∃ store visit reply, job.stage = .returned store visit reply) : c.EndsAlone id := by
      obtain ⟨stage, hj', -, hless⟩ := hsees.turn h hj hr hplace
      have hless := hless hstage
      have hr' : ({ job with stage } : Job).request = .read text := hr
      have hend : (c.step (.run id)).EndsAlone id := ih stage.toGo hless hr' (h.mounts_step (.run id) ▸ hplace)
        (hsees.step h (.run id)) (h.step (.run id)) hj' (Nat.lt_trans hless hlt) rfl
      exact hend.run
    have hpausing {store due : Nat} {visit : Visit} {call : StoreCall} (hstage : job.stage = .pausing store visit due)
        (hcall : visit.call? = some call) (hless : ∀ reply, (Stage.returned store visit reply).toGo < job.stage.toGo) :
        c.EndsAlone id := by
      let pause : Event := .elapse (due - c.time)
      have hdue : due ≤ (c.step pause).time := by
        show due ≤ c.time + (due - c.time)
        omega
      obtain ⟨reply, hj'⟩ := (h.step pause).returned_of_due hj hstage hcall hdue
      have hr' : ({ job with stage := .returned store visit reply } : Job).request = .read text := hr
      have hend : ((c.step pause).step (.run id)).EndsAlone id := ih _ (hless reply) hr'
        ((h.step pause).mounts_step (.run id) ▸ hplace) ((hsees.step h pause).step (h.step pause) (.run id))
        ((h.step pause).step (.run id)) hj' (Nat.lt_trans (hless reply) hlt) rfl
      exact hend.run.pause
    have hfits := hsees job text key s hj hr hplace
    generalize hstage : job.stage = stage at hfits hlt
    cases hfits with
    | ready => exact absurd hlt (by decide : ¬6 < 5)
    | queued => exact absurd hlt (by decide : ¬5 < 5)
    | pausing => exact hpausing hstage rfl fun reply => hstage ▸ (by decide : 3 < 4)
    | returned => exact hreturned ⟨_, _, _, hstage⟩
    | toBurn => exact hpausing hstage rfl fun reply => hstage ▸ (by decide : 1 < 2)
    | burn => exact hreturned ⟨_, _, _, hstage⟩
    | finished => exact .ended hj hstage
    | cancelled => exact .ended hj hstage

omit hr hplace in
/-- A job that begins to wait has found the lock held. -/
private theorem held_of_queued {shelf : Shelf} {visit : Visit} {shelves : List Shelf}
    (ht : Transition c id job .ready (.queued s visit) shelves) (hs : c.shelves[s]? = some shelf) :
    shelf.lock.holder ≠ none := by
  generalize hnew : Stage.queued s visit = new at ht
  cases ht with
  | aside ha => cases ha <;> cases hnew
  | refuse => exact absurd hnew (Stage.ne_turn rfl _)
  | cancel => exact absurd hnew (Stage.ne_turn rfl _)
  | queue _ hs' _ _ hholder =>
    cases hnew
    cases hs.symm.trans hs'
    simp [hholder]
  | enter _ _ _ _ _ hv => cases hv <;> cases hnew
  | leave => exact absurd hnew (Stage.ne_turn rfl _)

/-- A read that comes to a store whose lock is free comes to its end. -/
theorem Sees.ends_free (hsees : c.Sees id sight) (h : c.LocksSound) (hj : c.jobs[id]? = some job)
    (hready : job.stage = .ready) {shelf : Shelf} (hs : c.shelves[s]? = some shelf) (hfree : shelf.lock.holder = none) :
    c.EndsAlone id := by
  have hroute : job.request.route c.mounts c.clock = .ok (s, .get key) := by rw [hr]; simp only [Request.route, hplace]
  have hw : Wants c job job.stage s (.get key) := hready ▸ .call hroute
  obtain ⟨new, shelves, cancelled, ht, -, hask⟩ := ask_eq hw hs (by simp [hfree])
  have hrun : c.run id = { c with shelves, cancelled }.settle id job.stage new := by
    rw [← hask]
    simp only [run, hj, hready]
    exact begin_admitted hroute rfl
  have hfits := hsees job text key s hj hr hplace
  obtain ⟨hnew, hless⟩ := hfits.step hr hplace ht
  have hlt : new.toGo < 5 := by
    rw [hready] at ht hless
    cases hnew with
    | ready => exact absurd hless (Nat.lt_irrefl _)
    | queued => exact absurd hfree (held_of_queued ht hs)
    | pausing => exact (by decide : 4 < 5)
    | returned => exact (by decide : 3 < 5)
    | toBurn => exact (by decide : 2 < 5)
    | burn => exact (by decide : 1 < 5)
    | finished => exact (by decide : 0 < 5)
    | cancelled => exact (by decide : 0 < 5)
  have hj' : (c.step (.run id)).jobs[id]? = some { job with stage := new } := by
    rw [Cache.step, hrun, getElem?_settle hj, if_pos rfl]
  have hr' : ({ job with stage := new } : Job).request = .read text := hr
  have hend : (c.step (.run id)).EndsAlone id := (hsees.step h (.run id)).ends hr' (h.mounts_step (.run id) ▸ hplace)
    (h.step (.run id)) hj' hlt
  exact hend.run

end Ends

end Cache

end RoutedCache

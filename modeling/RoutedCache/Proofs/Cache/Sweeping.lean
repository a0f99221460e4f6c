import RoutedCache.Proofs.Cache.Doomed
import RoutedCache.Proofs.Cache.Serve
import RoutedCache.Proofs.Cache.Transition
import RoutedCache.Proofs.Store.Cells

/-!
# Sweeps under way

A sweep knows of the records of a store what its listing has shown, and as long as it is at work there each of them
is in the store or has been deleted (`SweepStage`).  So whatever a sweep does to a shelf is to take or leave its lock,
or to delete one cell whose record has expired (`Erodes`).
-/

namespace RoutedCache

/-- The cell of the entry's key has the record of the entry, or there is no such cell. -/
def Store.Shows (store : Store) (entry : KeyRecord) : Prop :=
  ∀ cell, store.cell? entry.key = some cell → cell.record? = some entry.record

/-- The stage of a sweep: the entries that it has yet to look at are those of the store. -/
inductive SweepStage (clock : Clock) (shelves : List Shelf) : Stage → Prop
  | ready : SweepStage clock shelves .ready
  | between {cycle} : SweepStage clock shelves (.between cycle)
  | idle {due} : SweepStage clock shelves (.idle due)
  | finished {answer} : SweepStage clock shelves (.finished answer)
  | queued {store path cycle} : SweepStage clock shelves (.queued store (.list path cycle))
  | list {store path cycle entries}
      (h : ∀ shelf, shelves[store]? = some shelf → ∀ entry ∈ entries, shelf.store.Shows entry) :
      SweepStage clock shelves (.returned store (.list path cycle) (.listed entries))
  | evict {store key mount cycle reply} (hc : ∃ earlier : Clock, earlier.nanos ≤ clock.nanos ∧
        earlier.read? = some mount.clock)
      (h : ∀ shelf, shelves[store]? = some shelf → ∀ entry ∈ mount.rest, shelf.store.Shows entry) :
      SweepStage clock shelves (.returned store (.evict key mount cycle) reply)

/-- A cell under this key has a record that has expired. -/
def Store.Withers (store : Store) (clock : Clock) (key : String) : Prop :=
  ∀ cell, store.cell? key = some cell → ∃ record, cell.record? = some record ∧ record.Expired clock

/-- What a sweep may do to the shelves, given the store in which it is at work afterwards. -/
def Erodes (clock : Clock) (inside : Option Nat) (shelves shelves' : List Shelf) : Prop :=
  shelves'.length = shelves.length ∧ ∀ (s : Nat) (shelf' : Shelf), shelves'[s]? = some shelf' →
    ∃ shelf, shelves[s]? = some shelf ∧ shelf'.outages = [] ∧
      (shelf'.store = shelf.store ∨ inside = some s ∧ ∃ key, shelf.store.Withers clock key ∧
        shelf'.store = (shelf.store.perform (.delete key)).2)

/-- The answers with which a sweep may end. -/
def Answer.EndsSweep (answer : Answer) : Prop :=
  answer = .ended ∨ answer = .broken ∨ ∃ report, answer = .swept report

/-- All shelves serve every request, and the documents that can be read name their own keys. -/
def HonestShelves (shelves : List Shelf) : Prop :=
  ∀ (s : Nat) (shelf : Shelf), shelves[s]? = some shelf → shelf.outages = [] ∧ shelf.store.Honest

namespace Erodes

variable {clock : Clock} {inside : Option Nat} {shelves : List Shelf} {store : Nat} {shelf shelf' : Shelf}

theorem refl (h : HonestShelves shelves) : Erodes clock inside shelves shelves :=
  ⟨rfl, fun s shelf hs => ⟨shelf, hs, (h s shelf hs).1, .inl rfl⟩⟩

private theorem set (h : HonestShelves shelves) (hs : shelves[store]? = some shelf) (ho : shelf'.outages = [])
    (hstore : shelf'.store = shelf.store ∨ inside = some store ∧ ∃ key, shelf.store.Withers clock key ∧
      shelf'.store = (shelf.store.perform (.delete key)).2) :
    Erodes clock inside shelves (shelves.set store shelf') := by
  refine ⟨List.length_set, fun s other hother => ?_⟩
  rcases Shelf.set_cases hother with ⟨rfl, rfl⟩ | ⟨-, hother⟩
  · exact ⟨shelf, hs, ho, hstore⟩
  · exact ⟨other, hother, (h s other hother).1, .inl rfl⟩

theorem lock (h : HonestShelves shelves) (hs : shelves[store]? = some shelf) (ho : shelf'.outages = [])
    (hstore : shelf'.store = shelf.store) : Erodes clock inside shelves (shelves.set store shelf') :=
  set h hs ho (.inl hstore)

theorem honest (h : Erodes clock inside shelves shelves') (hh : HonestShelves shelves) :
    HonestShelves shelves' := by
  intro s shelf' hs'
  obtain ⟨shelf, hs, ho, hstore⟩ := h.2 s shelf' hs'
  refine ⟨ho, ?_⟩
  rcases hstore with heq | ⟨-, key, -, heq⟩
  · rw [heq]
    exact (hh s shelf hs).2
  · rw [heq]
    exact (hh s shelf hs).2.perform _

end Erodes

theorem Store.Honest.plain {store : Store} (h : store.Honest) : store.Plain := by
  cases store with
  | faulty => exact h
  | _ => trivial

theorem Store.Honest.shows_delete {store : Store} (h : store.Honest) {entry : KeyRecord}
    (hs : store.Shows entry) (key : String) : (store.perform (.delete key)).2.Shows entry := by
  intro cell hcell
  rw [(h.delete key).2] at hcell
  split at hcell
  next => cases hcell
  next => exact hs cell hcell

/-! ### Transitions -/

variable {c : Cache} {id : JobId} {job : Job} {old new : Stage} {shelves : List Shelf}

/-- What a transition of a sweep leads to. -/
structure SweepStep (c : Cache) (new : Stage) (shelves : List Shelf) : Prop where
  stage : SweepStage c.clock shelves new
  answers : ∀ answer, new = .finished answer → answer.EndsSweep
  erodes : Erodes c.clock new.inside? c.shelves shelves

namespace SweepStep

theorem aside (h : HonestShelves c.shelves) (hr : job.request.Sweeps) (ha : Aside c job old new) :
    SweepStep c new c.shelves := by
  refine ⟨?_, fun answer heq => ?_, .refl h⟩
  · cases ha with
    | answer _ hne => rcases hr with hr | hr <;> simp [hr] at hne
    | await hr' => rcases hr with hr | hr <;> simp [hr] at hr'
    | sweep => exact .between
    | sweeper => exact .idle
    | pause => exact .idle
    | wake => exact .between
    | _ => exact .finished
  · cases ha with
    | answer _ hne => rcases hr with hr | hr <;> simp [hr] at hne
    | swept => cases heq; exact .inr (.inr ⟨_, rfl⟩)
    | shutdown => cases heq; exact .inl rfl
    | stop => cases heq; exact .inl rfl
    | joined => cases heq; exact .inl rfl
    | _ => cases heq

/-- The sweep lists the records of a store. -/
theorem list {store : Nat} {shelf shelf' shelf'' : Shelf} {path : String} {cycle : SweepCycle}
    (h : HonestShelves c.shelves) (hs : c.shelves[store]? = some shelf)
    (hv : Visits c id store shelf' (.list path cycle) new shelf'') (hstore : shelf'.store = shelf.store)
    (ho : shelf'.outages = []) : SweepStep c new (c.shelves.set store shelf'') := by
  have hhonest : shelf'.store.Honest := hstore ▸ (h store shelf hs).2
  cases hv with
  | pause hcall hd => exact absurd (hhonest.plain.delay _) hd
  | call hcall =>
    cases hcall
    obtain ⟨entries, hlist, hshows⟩ := hhonest.list path
    rw [Shelf.perform_eq ho, hlist]
    refine ⟨.list fun other hother entry hentry => ?_, by simp, .lock h hs ho hstore⟩
    rw [List.getElem?_set_self (List.getElem?_eq_some_iff.1 hs).1] at hother
    cases hother
    obtain ⟨cell, hcell, hrecord⟩ := hshows entry hentry
    intro cell' hcell'
    rw [hcell] at hcell'
    cases hcell'
    exact hrecord

/-- The sweep deletes a record that it has seen expired. -/
theorem evict {store : Nat} {shelf shelf' : Shelf} {entry : KeyRecord} {mount : MountSweep} {cycle : SweepCycle}
    (h : HonestShelves c.shelves) (hs : c.shelves[store]? = some shelf)
    (hv : Visits c id store shelf (.evict entry.key mount cycle) new shelf')
    (hclock : ∃ earlier : Clock, earlier.nanos ≤ c.clock.nanos ∧ earlier.read? = some mount.clock)
    (hexpired : entry.record.isValidAt mount.clock = false) (hentry : shelf.store.Shows entry)
    (hrest : ∀ entry ∈ mount.rest, shelf.store.Shows entry) : SweepStep c new (c.shelves.set store shelf') := by
  obtain ⟨ho, hhonest⟩ := h store shelf hs
  cases hv with
  | pause hcall hd => exact absurd (hhonest.plain.delay _) hd
  | call hcall =>
    cases hcall
    rw [Shelf.perform_eq ho]
    refine ⟨.evict hclock fun other hother entry' hentry' => ?_, by simp,
      .set h hs ho (.inr ⟨rfl, entry.key, ?_, rfl⟩)⟩
    · rw [List.getElem?_set_self (List.getElem?_eq_some_iff.1 hs).1] at hother
      cases hother
      exact hhonest.shows_delete (hrest entry' hentry') _
    · intro cell hcell
      obtain ⟨earlier, hearlier, hread⟩ := hclock
      exact ⟨entry.record, hentry cell hcell, earlier, mount.clock, hearlier, hread, hexpired⟩

/-- The sweep leaves a store, or it does not get into it. -/
theorem leave {store : Nat} {shelf shelf' : Shelf} {turn : Visit.Turn} (h : HonestShelves c.shelves)
    (hs : c.shelves[store]? = some shelf) (hstore : shelf'.store = shelf.store) (ho : shelf'.outages = [])
    (hturn : turn = .answer .broken ∨ ∃ cycle, turn = .move cycle) :
    SweepStep c turn.stage (c.shelves.set store shelf') := by
  refine ⟨?_, fun answer heq => ?_, .lock h hs ho hstore⟩
  · rcases hturn with rfl | ⟨cycle, rfl⟩
    · exact .finished
    · exact .between
  · rcases hturn with rfl | ⟨cycle, rfl⟩
    · cases heq
      exact .inr (.inl rfl)
    · cases heq

/-- After a reply a sweep leaves its store or deletes a record that has expired. -/
theorem next {store : Nat} {visit : Visit} {reply : Reply} {turn : Visit.Turn} {cancelled : Bool}
    (h : SweepStage c.clock c.shelves (.returned store visit reply)) {shelf : Shelf}
    (hs : c.shelves[store]? = some shelf) (hnext : visit.next c.clock cancelled reply = turn) :
    (turn = .answer .broken ∨ ∃ cycle, turn = .move cycle) ∨
      ∃ entry mount cycle, turn = .stay (.evict entry.key mount cycle) ∧
        (∃ earlier : Clock, earlier.nanos ≤ c.clock.nanos ∧ earlier.read? = some mount.clock) ∧
        entry.record.isValidAt mount.clock = false ∧ shelf.store.Shows entry ∧
        ∀ entry ∈ mount.rest, shelf.store.Shows entry := by
  -- All that is left of a listing has been shown, so the next record to delete has been shown as well.
  have hon {path : String} {now : Instant} {report : SweepReport} {entries : List KeyRecord}
      {cycle : SweepCycle}
      (hnow : ∃ earlier : Clock, earlier.nanos ≤ c.clock.nanos ∧ earlier.read? = some now)
      (hshows : ∀ entry ∈ entries, shelf.store.Shows entry)
      (hturn : Visit.sweepOn path now cancelled report entries cycle = turn) :
      (turn = .answer .broken ∨ ∃ cycle, turn = .move cycle) ∨
        ∃ entry mount cycle, turn = .stay (.evict entry.key mount cycle) ∧
          (∃ earlier : Clock, earlier.nanos ≤ c.clock.nanos ∧ earlier.read? = some mount.clock) ∧
          entry.record.isValidAt mount.clock = false ∧ shelf.store.Shows entry ∧
          ∀ entry ∈ mount.rest, shelf.store.Shows entry := by
    subst hturn
    rcases Visit.sweepOn_cases path now cancelled report entries cycle with
      ⟨report', heq, -⟩ | ⟨entry, mount, skipped, heq, -, hclock, hdoomed, hsplit, -⟩
    · exact .inl (.inr ⟨_, heq⟩)
    · have hexpired : entry.record.isValidAt mount.clock = false := by
        rw [hclock]
        simpa [KeyRecord.isDoomed] using (Bool.and_eq_true_iff.1 hdoomed).2
      refine .inr ⟨entry, mount, cycle, heq, hclock ▸ hnow, hexpired, hshows entry (by simp [hsplit]), ?_⟩
      intro entry' hentry'
      exact hshows entry' (by simp [hsplit, hentry'])
  cases h with
  | list hshows =>
    simp only [Visit.next, Visit.listOn] at hnext
    split at hnext
    next => exact .inl (.inl hnext.symm)
    next now hnow => exact hon ⟨c.clock, Int.le_refl _, hnow⟩ (hshows shelf hs) hnext
  | evict hclock hshows => exact hon hclock (hshows shelf hs) hnext

end SweepStep

/-- A transition of a sweep does to the shelves what a sweep may do. -/
theorem SweepStage.step (h : SweepStage c.clock c.shelves old) (hr : job.request.Sweeps)
    (hh : HonestShelves c.shelves) (ht : Transition c id job old new shelves) : SweepStep c new shelves := by
  have hwants {store : Nat} {visit : Visit} (hw : Wants c job old store visit) :
      ∃ path cycle, visit = .list path cycle := by
    cases hw with
    | call hroute => rcases hr with hr | hr <;> rw [hr] at hroute <;> cases hroute
    | mount => exact ⟨_, _, rfl⟩
  have hrequested {store : Nat} {shelf : Shelf} (hs : c.shelves[store]? = some shelf) :
      shelf.outages.tail = [] := by
    rw [(hh store shelf hs).1, List.tail_nil]
  cases ht with
  | aside ha => exact .aside hh hr ha
  | @refuse _ store visit shelf fault hw hs hfault =>
    obtain ⟨ho, hhonest⟩ := hh store shelf hs
    simp [Shelf.lockRefusal?, Shelf.outage?, ho, hhonest.plain.lockRefusal?] at hfault
  | cancel hw hs =>
    obtain ⟨path, cycle, rfl⟩ := hwants hw
    exact .leave hh hs rfl (hrequested hs) (.inr ⟨_, rfl⟩)
  | queue hw hs =>
    obtain ⟨path, cycle, rfl⟩ := hwants hw
    exact ⟨.queued, by simp, .lock hh hs (hrequested hs) rfl⟩
  | enter hw hs _ _ _ hv =>
    obtain ⟨path, cycle, rfl⟩ := hwants hw
    exact .list hh hs hv rfl (hrequested hs)
  | grant hs _ _ hv =>
    cases h with
    | queued => exact .list hh hs hv rfl (hh _ _ hs).1
  | call => cases h
  | stay hs hnext hv =>
    rcases SweepStep.next h hs hnext with
      (hturn | ⟨cycle, hturn⟩) | ⟨entry, mount, cycle, hturn, hclock, hexpired, hshows, hrest⟩
    · cases hturn
    · cases hturn
    · cases hturn
      exact .evict hh hs hv hclock hexpired hshows hrest
  | leave hk hs hl =>
    refine .leave hh hs rfl (hh _ _ hs).1 ?_
    cases hl with
    | cancelled =>
      cases h with
      | queued => exact .inr ⟨_, rfl⟩
    | next hnext hstay =>
      cases hk
      rcases SweepStep.next h hs hnext with hturn | ⟨entry, mount, cycle, hturn, -⟩
      · exact hturn
      · exact absurd hturn (hstay _)
    | held => cases h

end RoutedCache

import RoutedCache.Proofs.Cache.Isolation
import RoutedCache.Proofs.Cache.Shelves
import RoutedCache.Proofs.Store.Contents

/-!
# Sweeps of any listing

A sweep takes the answer of a listing as it is: in any order, and with more entries than those of the mount.  What
the sweep of the mount comes to hangs only on which entries are listed and on whose deletions are refused
(`Cache.sweeps_listing`).  The entries that the sweep has dealt with, the report so far and the store are related by
`Inventory.Swept`, and every turn of the sweep keeps this relation (`Inventory.Works.step`).
-/

namespace RoutedCache

namespace Store

variable {path : String} {now : Instant} {refused : String → Bool}

theorem sweptEntries_append (report : SweepReport) (store : Store) (entries entries' : List KeyRecord) :
    sweptEntries path now refused report store (entries ++ entries') =
      sweptEntries path now refused (sweptEntries path now refused report store entries).1
        (sweptEntries path now refused report store entries).2 entries' := by
  induction entries generalizing report store with
  | nil => rfl
  | cons entry rest ih =>
    rw [List.cons_append, sweptEntries, sweptEntries]
    split
    next => exact ih ..
    next =>
      split
      next => exact ih ..
      next =>
        split
        next => exact ih ..
        next => exact ih ..

/-- Entries that are not doomed are counted if they are valid entries of the mount. -/
theorem sweptEntries_skipped (report : SweepReport) (store : Store) {entries : List KeyRecord}
    (h : ∀ entry ∈ entries, entry.isDoomed path now = false) :
    sweptEntries path now refused report store entries = (report.passing path now entries, store) := by
  have hkeys : doomedKeys path now entries = [] := by
    rw [doomedKeys, List.filter_eq_nil_iff.2 fun entry hentry => by simp [h entry hentry], List.map_nil]
  rw [sweptEntries_eq, hkeys]
  simp [SweepReport.passing]

theorem sweptEntries_doomed (report : SweepReport) (store : Store) {entry : KeyRecord}
    (h : entry.isDoomed path now = true) : sweptEntries path now refused report store [entry] =
      if refused entry.key then ({ report with failed := report.failed + 1 }, store)
      else ({ report with deleted := report.deleted + 1 }, (store.perform (.delete entry.key)).2) := by
  simp only [KeyRecord.isDoomed, Bool.and_eq_true, Bool.not_eq_true'] at h
  simp [sweptEntries, h.1, h.2]

end Store

namespace Inventory

/-- The listing shows what is stored under the path of the mount, and all that it shows is stored.  The order of the
entries is free, and so is which other entries are shown. -/
structure Lists (l : Inventory) : Prop where
  stored : ∀ entry ∈ l.entries, ∃ cell, l.content.cell? entry.key = some cell ∧ cell.record? = some entry.record
  complete : ∀ key cell record, l.content.cell? key = some cell → cell.record? = some record →
    startsWith l.path key = true → ⟨key, record⟩ ∈ l.entries

/-- A store lists what it keeps, given that its documents name their own keys. -/
theorem lists_of_perform {l : Inventory} (hn : l.content.NamesKeys)
    (h : (l.content.perform (.list l.path)).1 = .listed l.entries) : l.Lists where
  stored := (hn.list h).2
  complete key cell record hcell hrecord hstart := by
    have hshows {content : Store} (hc : content.cell? key = some (content.cellOf ⟨key, record⟩))
        (h : (content.perform (.list l.path)).1 = .listed l.entries) : ⟨key, record⟩ ∈ l.entries := by
      rcases Store.list_shows hc hstart with ⟨entries, heq, hmem⟩ | ⟨faults, entries, rfl, hrefused⟩
      · rw [heq] at h
        cases h
        exact hmem
      · simp [Store.perform, Faults.refusal?, hrefused] at h
    generalize l.content = content at hn h hcell
    cases content with
    | memory entries =>
      obtain ⟨record', hget, rfl⟩ := Option.map_eq_some_iff.1 hcell
      cases hrecord
      exact hshows hcell h
    | document file collection opened documents =>
      -- A document that can be read need not be the one that a put of its record makes.
      obtain ⟨text, hget, rfl⟩ := Option.map_eq_some_iff.1 hcell
      have honest : documents.Honest := hn
      have hrecords : documents.records.get? key = some record := by
        rw [Documents.get?_records, hget]
        exact hrecord
      simp only [Store.perform, performDocuments, Reply.listed.injEq] at h
      rw [← h, honest.list]
      exact List.mem_map.2 ⟨(key, record), List.mem_filter.2 ⟨KeyMap.mem_toList_iff.2 hrecords, hstart⟩, rfl⟩
    | faulty faults entries =>
      obtain ⟨record', hget, rfl⟩ := Option.map_eq_some_iff.1 hcell
      cases hrecord
      exact hshows hcell h

/-- What the sweep of the listing reports if the deletions of some keys are refused. -/
def report (l : Inventory) (refused : String → Bool) : SweepReport where
  deleted := l.entries.countP fun entry => entry.isDoomed l.path l.now && !refused entry.key
  failed := l.entries.countP fun entry => entry.isDoomed l.path l.now && refused entry.key
  valid := l.entries.countP (·.isKept l.path l.now)

/-- What the sweep of the listing leaves of the store if the deletions of some keys are refused. -/
structure Leaves (l : Inventory) (refused : String → Bool) (store : Store) : Prop where
  bare : store.bare = l.content.bare
  /-- A listed entry of the mount that is expired is gone if its deletion is not refused. -/
  removed : ∀ entry ∈ l.entries, entry.isDoomed l.path l.now = true → refused entry.key = false →
    store.cell? entry.key = none
  /-- Nothing else is gone. -/
  kept : ∀ key, (∀ entry ∈ l.entries, entry.key = key → entry.isDoomed l.path l.now = true → refused key = true) →
    store.cell? key = l.content.cell? key
  /-- So the entries of other mounts stay, be they listed or not, -/
  others : ∀ key, MountTable.owns l.path key = false → store.cell? key = l.content.cell? key
  /-- and so does what is valid or cannot be decoded. -/
  spared : ∀ key cell, l.content.cell? key = some cell →
    (∀ record, cell.record? = some record → record.isValidAt l.now = true) → store.cell? key = some cell
  /-- No expired entry of the mount is left but those whose deletion is refused. -/
  cleared : ∀ key cell record, l.content.cell? key = some cell → cell.record? = some record →
    startsWith l.path key = true → MountTable.owns l.path key = true → record.isValidAt l.now = false →
    refused key = false → store.cell? key = none

/-- The sweep has dealt with these entries, with this report and this store. -/
structure Swept (l : Inventory) (refused : String → Bool) (passed : List KeyRecord) (report : SweepReport)
    (store : Store) : Prop where
  outcome : l.content.sweptEntries l.path l.now refused {} passed = (report, store)
  bare : store.bare = l.content.bare
  done : ∀ entry ∈ passed, entry.isDoomed l.path l.now = true → refused entry.key = false →
    (l.content.perform (.delete entry.key)).1 = .done

/-- The other listing shows the same entries of the same store, in another order. -/
structure Reorders (l l' : Inventory) : Prop where
  entries : l'.entries.Perm l.entries
  path : l'.path = l.path
  now : l'.now = l.now
  content : l'.content = l.content

variable {l l' : Inventory} {refused : String → Bool} {passed rest : List KeyRecord} {report : SweepReport}
  {store store' : Store} {shelf shelf' : Shelf} {entry : KeyRecord} {mount : MountSweep}

theorem Lists.reorders (h : l.Lists) (hr : l.Reorders l') : l'.Lists where
  stored entry hentry := by
    rw [hr.content]
    exact h.stored entry (hr.entries.mem_iff.1 hentry)
  complete key cell record hcell hrecord hstart := by
    rw [hr.content] at hcell
    rw [hr.path] at hstart
    exact hr.entries.mem_iff.2 (h.complete key cell record hcell hrecord hstart)

theorem Reorders.report_eq (hr : l.Reorders l') (refused : String → Bool) : l'.report refused = l.report refused := by
  simp only [Inventory.report, hr.path, hr.now, hr.entries.countP_eq]

/-- The order of the entries makes no difference to what is left of the store. -/
theorem Leaves.unique (h : l.Leaves refused store) (hr : l.Reorders l') (h' : l'.Leaves refused store') :
    store' = store := by
  refine Store.ext_cells (by rw [h'.bare, hr.content, h.bare]) fun key => ?_
  by_cases hgone : ∃ entry ∈ l.entries, entry.key = key ∧ entry.isDoomed l.path l.now = true ∧ refused key = false
  · obtain ⟨entry, hentry, rfl, hdoomed, hnot⟩ := hgone
    rw [h.removed entry hentry hdoomed hnot]
    exact h'.removed entry (hr.entries.mem_iff.2 hentry) (by rw [hr.path, hr.now, hdoomed]) hnot
  · have hnone (entry : KeyRecord) (hentry : entry ∈ l.entries) (hkey : entry.key = key)
        (hdoomed : entry.isDoomed l.path l.now = true) : refused key = true := by
      rw [← Bool.not_eq_false]
      exact fun hnot => hgone ⟨entry, hentry, hkey, hdoomed, hnot⟩
    rw [h.kept key hnone, h'.kept key, hr.content]
    intro entry hentry hkey hdoomed
    rw [hr.path, hr.now] at hdoomed
    exact hnone entry (hr.entries.mem_iff.1 hentry) hkey hdoomed

namespace Swept

theorem begin (l : Inventory) (refused : String → Bool) : l.Swept refused [] {} l.content :=
  ⟨rfl, rfl, fun _ hentry => nomatch hentry⟩

theorem passing (h : l.Swept refused passed report store) {skipped : List KeyRecord}
    (hskipped : ∀ entry ∈ skipped, entry.isDoomed l.path l.now = false) :
    l.Swept refused (passed ++ skipped) (report.passing l.path l.now skipped) store where
  outcome := by rw [Store.sweptEntries_append, h.outcome, Store.sweptEntries_skipped report store hskipped]
  bare := h.bare
  done entry hentry hdoomed := by
    rcases List.mem_append.1 hentry with hentry | hentry
    · exact h.done entry hentry hdoomed
    · rw [hskipped entry hentry] at hdoomed
      cases hdoomed

/-- The sweep deletes a doomed entry, or the deletion is refused. -/
theorem delete (h : l.Swept refused passed report shelf.store) (hd : entry.isDoomed l.path l.now = true)
    (hr : (shelf.perform (.delete entry.key)).1 = .done ↔ refused entry.key = false) :
    l.Swept refused (passed ++ [entry]) (MountSweep.count report (shelf.perform (.delete entry.key)).1)
      (shelf.perform (.delete entry.key)).2.store := by
  have hdone (hreply : (shelf.store.perform (.delete entry.key)).1 = .done ∨ refused entry.key = true) :
      ∀ other ∈ passed ++ [entry], other.isDoomed l.path l.now = true → refused other.key = false →
        (l.content.perform (.delete other.key)).1 = .done := by
    intro other hother hdoomed hnot
    rcases List.mem_append.1 hother with hother | hother
    · exact h.done other hother hdoomed hnot
    · obtain rfl := List.mem_singleton.1 hother
      rw [← Store.reply_delete_of_bare h.bare]
      exact hreply.resolve_right (by simp [hnot])
  have houtcome : Store.sweptEntries l.path l.now refused {} l.content (passed ++ [entry]) = _ :=
    Store.sweptEntries_append ..
  rw [h.outcome, Store.sweptEntries_doomed report shelf.store hd] at houtcome
  rcases shelf.perform_delete entry.key with ⟨hreply, -⟩ | ⟨fault, hreply, hsame⟩
  · obtain ⟨hstore, hperform⟩ := Shelf.perform_done hreply
    have hnot := hr.1 hreply
    rw [if_neg (by simp [hnot])] at houtcome
    rw [hreply, hperform]
    exact ⟨houtcome, (Store.bare_perform ..).trans h.bare, hdone (.inl hstore)⟩
  · have hrefused : refused entry.key = true := by
      rw [← Bool.not_eq_false, ← hr, hreply]
      simp
    rw [if_pos hrefused] at houtcome
    rw [hreply, hsame]
    exact ⟨houtcome, h.bare, hdone (.inr hrefused)⟩

/-- The sweep goes on to the next doomed entry, or it has dealt with all entries. -/
theorem next (h : l.Swept refused passed report store) (hsplit : l.entries = passed ++ rest) :
    (∃ report', Visit.sweepOn l.path l.now false report rest l.cycle = .move (l.cycle.add report') ∧
      l.Swept refused l.entries report' store) ∨
    ∃ passed' entry mount,
      Visit.sweepOn l.path l.now false report rest l.cycle = .stay (.evict entry.key mount l.cycle) ∧
        l.Deals passed' entry mount ∧ l.Swept refused passed' mount.report store := by
  have hfinds := MountSweep.next_finds l.path l.now false report rest
  unfold Visit.sweepOn
  generalize MountSweep.next l.path l.now false report rest = found at hfinds ⊢
  cases hfinds with
  | @stops skipped left hskipped hend =>
    obtain rfl : left = [] := hend.resolve_left Bool.false_ne_true
    rw [List.append_nil] at hsplit
    exact .inl ⟨_, rfl, hsplit ▸ h.passing hskipped⟩
  | @doomed skipped entry left hskipped hdoomed =>
    refine .inr ⟨passed ++ skipped, entry, _, rfl, ⟨rfl, rfl, ?_, hdoomed⟩, h.passing hskipped⟩
    rw [hsplit, List.append_assoc]

/-- A sweep that has dealt with all entries of a listing has come to what the listing says. -/
theorem report_eq (h : l.Swept refused l.entries report store) : report = l.report refused := by
  have houtcome := h.outcome
  rw [Store.sweptEntries_eq, Prod.mk.injEq] at houtcome
  rw [← houtcome.1, Store.doomedKeys, List.countP_map, List.countP_map, List.countP_filter, List.countP_filter]
  simp only [Inventory.report, Function.comp_apply, Nat.zero_add, Bool.and_comm]

theorem cell?_eq (h : l.Swept refused passed report store) (key : String) : store.cell? key =
    if ∃ entry ∈ passed, entry.key = key ∧ entry.isDoomed l.path l.now = true ∧ refused key = false then none
    else l.content.cell? key := by
  have houtcome := h.outcome
  rw [Store.sweptEntries_eq, Prod.mk.injEq] at houtcome
  rw [← houtcome.2, Store.cell?_erasing]
  congr 1
  simp only [Store.doomedKeys, List.mem_filter, List.mem_map, eq_iff_iff]
  constructor
  · rintro ⟨⟨⟨entry, ⟨hentry, hdoomed⟩, rfl⟩, hnot⟩, -⟩
    exact ⟨entry, hentry, rfl, hdoomed, by simpa using hnot⟩
  · rintro ⟨entry, hentry, rfl, hdoomed, hnot⟩
    exact ⟨⟨⟨entry, ⟨hentry, hdoomed⟩, rfl⟩, by simp [hnot]⟩, h.done entry hentry hdoomed hnot⟩

theorem leaves (h : l.Swept refused l.entries report store) (hl : l.Lists) : l.Leaves refused store := by
  have hkept (key : String) (hnone : ∀ entry ∈ l.entries, entry.key = key →
      entry.isDoomed l.path l.now = true → refused key = true) : store.cell? key = l.content.cell? key := by
    rw [h.cell?_eq, if_neg]
    rintro ⟨entry, hentry, hkey, hdoomed, hnot⟩
    rw [hnone entry hentry hkey hdoomed] at hnot
    cases hnot
  have hremoved (entry : KeyRecord) (hentry : entry ∈ l.entries) (hdoomed : entry.isDoomed l.path l.now = true)
      (hnot : refused entry.key = false) : store.cell? entry.key = none := by
    rw [h.cell?_eq, if_pos ⟨entry, hentry, rfl, hdoomed, hnot⟩]
  refine ⟨h.bare, hremoved, hkept, fun key howns => ?_, fun key cell hcell hvalid => ?_, ?_⟩
  · refine hkept key fun entry _ hkey hdoomed => ?_
    simp [KeyRecord.isDoomed, hkey, howns] at hdoomed
  · rw [← hcell]
    refine hkept key fun entry hentry hkey hdoomed => ?_
    obtain ⟨cell', hcell', hrecord⟩ := hl.stored entry hentry
    rw [hkey, hcell] at hcell'
    cases hcell'
    simp [KeyRecord.isDoomed, hvalid entry.record hrecord] at hdoomed
  · intro key cell record hcell hrecord hstart howns hexpired hnot
    exact hremoved ⟨key, record⟩ (hl.complete key cell record hcell hrecord hstart)
      (by simp [KeyRecord.isDoomed, howns, hexpired]) hnot

end Swept

end Inventory

/-! ### The run of a sweep -/

/-- The deletion that a sweep has just made: the key and the reply. -/
def Stage.deletion? : Stage → Option (String × Reply)
  | .returned _ (.evict key _ _) reply => some (key, reply)
  | _ => none

/-- A deletion fails exactly if its key is refused. -/
def Stage.Meets (refused : String → Bool) (stage : Stage) : Prop :=
  ∀ deletion ∈ stage.deletion?, deletion.2 = .done ↔ refused deletion.1 = false

instance (refused : String → Bool) (stage : Stage) : Decidable (stage.Meets refused) :=
  inferInstanceAs (Decidable (∀ deletion ∈ stage.deletion?, deletion.2 = .done ↔ refused deletion.1 = false))

namespace Inventory

/-- The stages of a sweep that works on the listing, up to the one in which it leaves the mount. -/
inductive Works (l : Inventory) (refused : String → Bool) (store : Store) : Stage → Prop
  | pausing {passed entry mount due} (hd : l.Deals passed entry mount)
      (hs : l.Swept refused passed mount.report store) :
      Works l refused store (.pausing l.store (.evict entry.key mount l.cycle) due)
  | returned {passed entry mount reply} (hd : l.Deals passed entry mount)
      (hs : l.Swept refused (passed ++ [entry]) (MountSweep.count mount.report reply) store) :
      Works l refused store (.returned l.store (.evict entry.key mount l.cycle) reply)
  | done {report} (hs : l.Swept refused l.entries report store) :
      Works l refused store (.between (l.cycle.add report))

variable {l : Inventory} {refused : String → Bool} {passed rest : List KeyRecord} {report : SweepReport}
  {shelf shelf' : Shelf} {entry : KeyRecord} {mount : MountSweep} {c : Cache} {id : JobId} {job : Job}
  {old new : Stage} {shelves : List Shelf}

/-- The sweep makes the deletion that it has come to, or it waits before it does. -/
theorem Swept.visits (h : l.Swept refused passed mount.report shelf.store) (hd : l.Deals passed entry mount)
    (hv : Visits c id l.store shelf (.evict entry.key mount l.cycle) new shelf') (hm : new.Meets refused) :
    l.Works refused shelf'.store new := by
  cases hv with
  | pause => exact .pausing hd h
  | call hc =>
    cases hc
    exact .returned hd (h.delete hd.doomed (hm _ rfl))

/-- A sweep that has a reply and has dealt with some of the entries goes on with the rest. -/
theorem Swept.turn {visit : Visit} {reply : Reply} (h : l.Swept refused passed report shelf.store)
    (hsplit : l.entries = passed ++ rest) (hs : c.shelves[l.store]? = some shelf)
    (hc : c.isCancelled job.token = false) (hnext : visit.next c.clock false reply =
      Visit.sweepOn l.path l.now false report rest l.cycle)
    (ht : Transition c id job (.returned l.store visit reply) new shelves) (hm : new.Meets refused) :
    ∃ store, (storesOn shelves)[l.store]? = some store ∧ l.Works refused store new := by
  have hcases := h.next hsplit
  rw [← hnext] at hcases
  cases ht.claimed rfl with
  | @stay _ _ _ visit' _ _ shelf' hs' hstay hv =>
    cases hs.symm.trans hs'
    rw [hc] at hstay
    rcases hcases with ⟨report', hmove, -⟩ | ⟨passed', entry, mount, hstay', hd, hswept⟩
    · cases hmove.symm.trans hstay
    · cases hstay'.symm.trans hstay
      exact ⟨shelf'.store, getElem?_storesOn_set hs shelf', hswept.visits hd hv hm⟩
  | @leave _ s other _ hs' hl =>
    cases hl with
    | @next _ _ _ turn hturn hnot =>
      rw [hc] at hturn
      rcases hcases with ⟨report', hmove, hswept⟩ | ⟨_, entry, mount, hstay, -⟩
      · cases hmove.symm.trans hturn
        have hsame : storesOn (c.shelves.set s (other.left id)) = c.stores := storesOn_set hs' rfl
        exact ⟨shelf.store, by rw [hsame, Cache.store_of_shelf hs], .done hswept⟩
      · exact absurd (hturn.symm.trans hstay) (hnot _)

/-- A sweep that has waited makes its deletion. -/
theorem Works.call {due : Nat} {visit : Visit} (h : l.Works refused shelf.store (.pausing l.store visit due))
    (hs : c.shelves[l.store]? = some shelf) (ht : Transition c id job (.pausing l.store visit due) new shelves)
    (hm : new.Meets refused) :
    ∃ store, (storesOn shelves)[l.store]? = some store ∧ l.Works refused store new := by
  cases h with
  | pausing hd hswept =>
    cases ht.claimed rfl with
    | call hs' hcall =>
      cases hs.symm.trans hs'
      cases hcall
      exact ⟨_, getElem?_storesOn_set hs _, .returned hd (hswept.delete hd.doomed (hm _ rfl))⟩
    | leave _ hl => cases hl

end Inventory

namespace Cache

variable {l : Inventory} {refused : String → Bool} {c : Cache} {id : JobId} {job : Job} {events : List Event}

/-- In these events the sweep works on the listing until it leaves the mount: its token is not cancelled at its
turns, and its time for the mount is not over. -/
def Completes (id : JobId) (token : Token) (l : Inventory) : Cache → List Event → Prop
  | c, [] => c.inside? id = none
  | c, event :: events =>
    c.inside? id = some l.store ∧ (event = .run id → c.isCancelled token = false) ∧
      (event = .expire id → c.time < l.cycle.deadline) ∧ Completes id token l (c.step event) events

instance decidableCompletes (id : JobId) (token : Token) (l : Inventory) :
    (c : Cache) → (events : List Event) → Decidable (Completes id token l c events)
  | c, [] => inferInstanceAs (Decidable (c.inside? id = none))
  | c, event :: events =>
    have := decidableCompletes id token l (c.step event) events
    inferInstanceAs (Decidable (_ ∧ _ ∧ _ ∧ _))

/-- In these events the deletions of the sweep fail under the keys that are refused, and under no other ones. -/
def Refuses (id : JobId) (refused : String → Bool) : Cache → List Event → Prop
  | _, [] => True
  | c, event :: events =>
    (∀ stage ∈ (c.step event).stage? id, stage.Meets refused) ∧ Refuses id refused (c.step event) events

instance decidableRefuses (id : JobId) (refused : String → Bool) :
    (c : Cache) → (events : List Event) → Decidable (Refuses id refused c events)
  | _, [] => .isTrue trivial
  | c, event :: events =>
    have := decidableRefuses id refused (c.step event) events
    inferInstanceAs (Decidable (_ ∧ _))

/-- The job is about to take up this answer of a listing. -/
structure Shown (c : Cache) (id : JobId) (job : Job) (l : Inventory) : Prop where
  here : c.jobs[id]? = some job
  stage : job.stage = .returned l.store (.list l.path l.cycle) (.listed l.entries)
  clock : c.clock.read? = some l.now
  content : c.stores[l.store]? = some l.content

/-- The job works on the listing. -/
structure WorksOn (c : Cache) (id : JobId) (token : Token) (l : Inventory) (refused : String → Bool) (job : Job)
    (store : Store) : Prop where
  here : c.jobs[id]? = some job
  token : job.token = token
  content : c.stores[l.store]? = some store
  works : l.Works refused store job.stage

variable {token : Token} {store : Store} {event : Event}

private theorem shelf_of_store {s : Nat} (h : c.stores[s]? = some store) :
    ∃ shelf, c.shelves[s]? = some shelf ∧ shelf.store = store := by
  rw [getElem?_stores] at h
  exact Option.map_eq_some_iff.1 h

/-- The sweep takes up the listing. -/
theorem Shown.takes (h : c.Shown id job l) (hlocks : c.LocksSound) (hc : c.isCancelled job.token = false)
    (hm : ∀ stage ∈ (c.step (.run id)).stage? id, stage.Meets refused) :
    ∃ job' store', (c.step (.run id)).WorksOn id job.token l refused job' store' := by
  obtain ⟨shelf, hs, hstore⟩ := shelf_of_store h.content
  rcases hlocks.run_cases h.here with ⟨-, hnot⟩ | ⟨new, shelves, cancelled, sweeper, ht, -, hrun⟩
  · exact absurd h.stage (hnot _ _ _)
  · have hnext : (c.step (.run id)).jobs[id]? = some { job with stage := new } := by
      rw [Cache.step, hrun, getElem?_settle h.here, if_pos rfl]
    have hswept : l.Swept refused [] {} shelf.store := hstore ▸ .begin l refused
    rw [h.stage] at ht
    obtain ⟨store', hstore', hworks⟩ := hswept.turn (List.nil_append _).symm hs hc
      (by simp only [Visit.next, Visit.listOn, h.clock]) ht (hm new (stage?_eq hnext))
    refine ⟨_, store', hnext, rfl, ?_, hworks⟩
    rw [Cache.step, hrun]
    exact hstore'

/-- Every event does to a sweep at work what it may. -/
theorem WorksOn.step (h : c.WorksOn id token l refused job store) (hlocks : c.LocksSound)
    (hi : c.inside? id = some l.store) (hc : event = .run id → c.isCancelled token = false)
    (hd : event = .expire id → c.time < l.cycle.deadline)
    (hm : ∀ stage ∈ (c.step event).stage? id, stage.Meets refused) :
    ∃ job' store', (c.step event).WorksOn id token l refused job' store' := by
  obtain ⟨hj, rfl, hcontent, hworks⟩ := h
  rw [inside?_eq hj] at hi
  by_cases hmoves : event.Moves id
  · cases hlocks.moved hj hmoves with
    | same heq =>
      rw [heq]
      exact ⟨job, store, hj, rfl, hcontent, hworks⟩
    | @turn new shelves he ht hstores hnext =>
      obtain ⟨shelf, hs, rfl⟩ := shelf_of_store hcontent
      have hmeets : new.Meets refused := hm new (stage?_eq hnext)
      have hafter : ∃ store', (storesOn shelves)[l.store]? = some store' ∧ l.Works refused store' new := by
        generalize job.stage = old at ht hworks hi
        cases hworks with
        | pausing hdeals hswept => exact Inventory.Works.call (.pausing hdeals hswept) hs ht hmeets
        | @returned passed entry mount reply hdeals hswept =>
          have hsplit : l.entries = (passed ++ [entry]) ++ mount.rest := by rw [hdeals.split]; simp
          refine hswept.turn hsplit hs (hc he) ?_ ht hmeets
          simp only [Visit.next, hdeals.path, hdeals.clock]
        | done => cases hi
      obtain ⟨store', hstore', hworks'⟩ := hafter
      exact ⟨_, store', hnext, rfl, hstores ▸ hstore', hworks'⟩
    | skip he hx =>
      -- The time for the mount is not over.
      exfalso
      have hlt := hd he
      generalize job.stage = old at hx hworks
      cases hx with
      | skip hk hdue => cases hworks <;> cases hk <;> omega
  · refine ⟨job, store, hlocks.job_same hj hmoves, rfl, ?_, hworks⟩
    rw [hlocks.store_same ((inside?_eq hj).trans hi) hmoves]
    exact hcontent

/-- A sweep at work that completes has dealt with all entries of the listing. -/
theorem WorksOn.steps (h : c.WorksOn id token l refused job store) (hlocks : c.LocksSound)
    (hc : Completes id token l c events) (hr : Refuses id refused c events) :
    ∃ store' report, (c.steps events).stores[l.store]? = some store' ∧
      (c.steps events).stage? id = some (.between (l.cycle.add report)) ∧
      l.Swept refused l.entries report store' := by
  induction events generalizing c job store with
  | nil =>
    obtain ⟨hj, -, hcontent, hworks⟩ := h
    have hleft : job.stage.inside? = none := (inside?_eq hj).symm.trans hc
    have hstage := stage?_eq hj
    generalize job.stage = stage at hworks hleft hstage
    cases hworks with
    | pausing => cases hleft
    | returned => cases hleft
    | done hswept => exact ⟨store, _, hcontent, hstage, hswept⟩
  | cons event events ih =>
    obtain ⟨hi, hlive, hdue, hrest⟩ := hc
    obtain ⟨job', store', hnext⟩ := h.step hlocks hi hlive hdue hr.1
    exact ih hnext (hlocks.step event) hrest hr.2

/-! ### Which deletions are refused -/

/-- Whether a deletion is refused by the store itself. -/
def refusedBy (store : Store) (key : String) : Bool := (store.perform (.delete key)).1 ≠ .done

/-- Without outages a deletion fails if the store refuses it. -/
private theorem perform_meets {shelf : Shelf} (ho : shelf.outages = []) (hb : shelf.store.bare = store.bare)
    {s : Nat} {visit : Visit} {call : StoreCall} (hcall : visit.call? = some call) :
    (Stage.returned s visit (shelf.perform call).1).Meets (refusedBy store) := by
  intro deletion hdeletion
  cases visit with
  | evict key mount cycle =>
    cases hcall
    cases hdeletion
    have hreply : (shelf.perform (.delete key)).1 = (shelf.store.perform (.delete key)).1 := by
      simp [Shelf.perform, Shelf.outage?, ho]
    simp [hreply, Store.reply_delete_of_bare hb, refusedBy]
  | _ => cases hdeletion

/-- Every event keeps that the deletions of a job in a store without outages fail if the store refuses them. -/
private theorem meets_step (hlocks : c.LocksSound) {s : Nat} (hi : c.inside? id = some s) {shelf : Shelf}
    (hs : c.shelves[s]? = some shelf) (ho : shelf.outages = []) (hb : shelf.store.bare = store.bare)
    (hm : ∀ stage ∈ c.stage? id, stage.Meets (refusedBy store)) (event : Event) :
    ∀ stage ∈ (c.step event).stage? id, stage.Meets (refusedBy store) := by
  obtain ⟨old, hold, hinside⟩ := Option.bind_eq_some_iff.1 hi
  obtain ⟨job, hj, rfl⟩ := Option.map_eq_some_iff.1 hold
  intro stage hstage
  by_cases hmoves : event.Moves id
  · cases hlocks.moved hj hmoves with
    | same heq => exact hm stage (heq ▸ hstage)
    | @turn new shelves he ht _ hnext =>
      cases hstage.symm.trans (stage?_eq hnext)
      have hclaimed := ht.claimed (Stage.claim?_of_inside? hinside)
      generalize job.stage = old at hclaimed hinside
      cases hclaimed with
      | grant => cases hinside
      | call hs' hcall =>
        cases hinside
        cases hs.symm.trans hs'
        exact perform_meets ho hb hcall
      | stay hs' _ hv =>
        cases hinside
        cases hs.symm.trans hs'
        cases hv with
        | call hcall => exact perform_meets ho hb hcall
        | _ => exact fun deletion hdeletion => nomatch hdeletion
      | @leave _ _ _ turn => cases turn <;> exact fun deletion hdeletion => nomatch hdeletion
    | skip he hx _ hnext =>
      cases hstage.symm.trans (stage?_eq hnext)
      cases hx with
      | skip => exact fun deletion hdeletion => nomatch hdeletion
  · rw [hlocks.stage?_same hold hmoves] at hstage
    exact hm stage (hold.trans hstage)

private theorem refuses_of_bare (hlocks : c.LocksSound) (hc : Completes id token l c events) {shelf : Shelf}
    (hs : c.shelves[l.store]? = some shelf) (ho : shelf.outages = []) (hb : shelf.store.bare = store.bare)
    (hm : ∀ stage ∈ c.stage? id, stage.Meets (refusedBy store)) : Refuses id (refusedBy store) c events := by
  induction events generalizing c shelf with
  | nil => trivial
  | cons event events ih =>
    obtain ⟨hi, -, -, hrest⟩ := hc
    have hnext := meets_step hlocks hi hs ho hb hm event
    obtain ⟨shelf', hs', hwears⟩ := hlocks.wears_step hs event
    have hnone : shelf'.outages = [] := List.suffix_nil.1 (ho ▸ hwears.outages)
    exact ⟨hnext, ih (hlocks.step event) hrest hs' hnone (hwears.bare.trans hb) hnext⟩

/-! ### Sweeps complete -/

/-- A call trips the trip token at most. -/
private theorem isCancelled_perform (ht : token ≠ .trip) (s : Nat) (visit : Visit) (call : StoreCall) :
    (c.perform id s visit call).isCancelled token = c.isCancelled token := by
  unfold perform
  split
  next => rfl
  next =>
    dsimp only
    split
    next => simp [cancel, isCancelled, setStage, ht]
    next => rfl

private theorem isCancelled_visitStore (ht : token ≠ .trip) (s : Nat) (visit : Visit) :
    (c.visitStore id s visit).isCancelled token = c.isCancelled token := by
  unfold visitStore
  split
  next => rfl
  next =>
    split
    next => exact isCancelled_perform ht ..
    next => rfl
  next => rfl
  next => rfl

/-- The turns of a job in a store cancel no token but the trip token. -/
private theorem isCancelled_run (ht : token ≠ .trip) (hj : c.jobs[id]? = some job) {s : Nat}
    (hi : job.stage.inside? = some s) : (c.step (.run id)).isCancelled token = c.isCancelled token := by
  simp only [Cache.step, run, hj]
  generalize job.stage = stage at hi
  cases stage with
  | pausing =>
    dsimp only
    split
    next =>
      split
      next => exact isCancelled_perform ht ..
      next => rfl
    next => rfl
  | returned store visit reply =>
    dsimp only
    split
    next => exact isCancelled_visitStore ht ..
    next =>
      generalize visit.next c.clock (c.isCancelled job.token) reply = turn
      cases turn <;> rfl
  | holding =>
    dsimp only
    split <;> rfl
  | _ => cases hi

theorem Completes.run (hi : c.inside? id = some l.store) (hc : c.isCancelled token = false)
    (h : Completes id token l (c.step (.run id)) events) : Completes id token l c (.run id :: events) :=
  ⟨hi, fun _ => hc, nofun, h⟩

theorem Completes.elapse (hi : c.inside? id = some l.store) {ms : Nat}
    (h : Completes id token l (c.step (.elapse ms)) events) : Completes id token l c (.elapse ms :: events) :=
  ⟨hi, nofun, nofun, h⟩

/-- A sweep that waits before its call completes, given that it does so with any reply. -/
private theorem completes_of_paused (hlocks : c.LocksSound) (hj : c.jobs[id]? = some job) {due : Nat}
    {visit : Visit} {call : StoreCall} (hstage : job.stage = .pausing l.store visit due)
    (hcall : visit.call? = some call) (hc : c.isCancelled job.token = false) (ht : job.token ≠ .trip)
    (hrest : ∀ {later : Cache} {reply : Reply}, later.LocksSound →
      later.jobs[id]? = some ⟨job.request, job.token, .returned l.store visit reply⟩ →
      later.isCancelled job.token = false → ∃ events, Completes id job.token l later (.run id :: events)) :
    ∃ events, Completes id job.token l c events := by
  have hwaited : (c.step (.elapse due)).jobs[id]? = some job := hj
  have hlocks' := hlocks.step (.elapse due)
  have hinside : job.stage.inside? = some l.store := by rw [hstage]; rfl
  have hlive : ((c.step (.elapse due)).step (.run id)).isCancelled job.token = false :=
    (isCancelled_run ht hwaited hinside).trans hc
  obtain ⟨reply, hreply⟩ := hlocks'.returned_of_due hwaited hstage hcall (Nat.le_add_left due c.time)
  obtain ⟨events, hcompletes⟩ := hrest (hlocks'.step (.run id)) hreply hlive
  exact ⟨_, .elapse ((inside?_eq hj).trans hinside)
    (.run ((inside?_eq hwaited).trans hinside) hc hcompletes)⟩

/-- A sweep that has a reply to take up and goes on with the rest of a listing completes. -/
private theorem completes_of_returned {n : Nat} (hlocks : c.LocksSound) (hj : c.jobs[id]? = some job) {visit : Visit}
    {reply : Reply} (hstage : job.stage = .returned l.store visit reply) {path : String} {now : Instant}
    {report : SweepReport} {rest : List KeyRecord} (hlength : rest.length < n)
    (hnext : visit.next c.clock false reply = Visit.sweepOn path now false report rest l.cycle)
    (hc : c.isCancelled job.token = false) (ht : job.token ≠ .trip) :
    ∃ events, Completes id job.token l c (.run id :: events) := by
  induction n generalizing c job visit reply path now report rest with
  | zero => exact absurd hlength (Nat.not_lt_zero _)
  | succ n ih =>
    have hi : c.inside? id = some l.store := by rw [inside?_eq hj, hstage]; rfl
    have hlive : (c.step (.run id)).isCancelled job.token = false := by
      rw [isCancelled_run ht hj (by rw [hstage]; rfl), hc]
    have hlocks' := hlocks.step (.run id)
    rcases hlocks.run_cases hj with ⟨-, hnot⟩ | ⟨new, shelves, cancelled, sweeper, htrans, -, hrun⟩
    · exact absurd hstage (hnot _ _ _)
    · have hj' : (c.step (.run id)).jobs[id]? = some { job with stage := new } := by
        rw [Cache.step, hrun, getElem?_settle hj, if_pos rfl]
      rw [hstage] at htrans
      cases htrans.claimed rfl with
      | @leave _ _ _ turn =>
        refine ⟨[], .run hi hc ?_⟩
        rw [Completes, inside?_eq hj']
        cases turn <;> rfl
      | stay hs hstay hv =>
        rw [hc, hnext] at hstay
        rcases Visit.sweepOn_cases path now false report rest l.cycle with
          ⟨report', hmove, -⟩ | ⟨entry, mount, skipped, hstay', -, -, -, hsplit, -⟩
        · cases hmove.symm.trans hstay
        · cases hstay'.symm.trans hstay
          have hshorter : mount.rest.length < n := by
            rw [hsplit, List.length_append, List.length_cons] at hlength
            omega
          cases hv with
          | call =>
            obtain ⟨events, hcompletes⟩ := ih hlocks' hj' rfl hshorter rfl hlive ht
            exact ⟨_, .run hi hc hcompletes⟩
          | @pause _ call hcall =>
            obtain ⟨events, hcompletes⟩ := completes_of_paused hlocks' hj' rfl hcall hlive ht <| by
              intro later reply' hlater hreply hlive'
              have hrest := ih hlater hreply rfl hshorter rfl hlive' ht
              exact hrest
            exact ⟨_, .run hi hc hcompletes⟩

/-! ### The sweep of a listing -/

/-- What the sweep of a mount comes to, given the answer to its listing. -/
structure SweepsListing (c : Cache) (id : JobId) (job : Job) (l : Inventory) : Prop where
  /-- Whichever deletions are refused, a sweep that is neither cancelled nor too late leaves of the store and reports
  what the listing says. -/
  exact : ∀ events refused, Completes id job.token l c (.run id :: events) →
    Refuses id refused c (.run id :: events) →
    ∃ store, (c.steps (.run id :: events)).stores[l.store]? = some store ∧
      (c.steps (.run id :: events)).stage? id = some (.between (l.cycle.add (l.report refused))) ∧
      l.Leaves refused store
  /-- With the same entries in another order, any other run comes to the same store and the same report. -/
  unordered : ∀ (other : Cache) id' job' l' events events' refused, other.LocksSound → other.Shown id' job' l' →
    l.Reorders l' → Completes id job.token l c (.run id :: events) → Refuses id refused c (.run id :: events) →
    Completes id' job'.token l' other (.run id' :: events') → Refuses id' refused other (.run id' :: events') →
    ∃ store report, (c.steps (.run id :: events)).stores[l.store]? = some store ∧
      (other.steps (.run id' :: events')).stores[l'.store]? = some store ∧
      (c.steps (.run id :: events)).stage? id = some (.between (l.cycle.add report)) ∧
      (other.steps (.run id' :: events')).stage? id' = some (.between (l'.cycle.add report))
  /-- Without outages the deletions that are refused are those which the store refuses. -/
  refuses : ∀ events shelf, c.shelves[l.store]? = some shelf → shelf.outages = [] →
    Completes id job.token l c (.run id :: events) → Refuses id (refusedBy l.content) c (.run id :: events)
  /-- A sweep that is not cancelled can complete. -/
  completes : c.isCancelled job.token = false → job.token ≠ .trip →
    ∃ events, Completes id job.token l c (.run id :: events)

theorem Shown.exact (h : c.Shown id job l) (hlocks : c.LocksSound) (hl : l.Lists)
    (hc : Completes id job.token l c (.run id :: events)) (hr : Refuses id refused c (.run id :: events)) :
    ∃ store, (c.steps (.run id :: events)).stores[l.store]? = some store ∧
      (c.steps (.run id :: events)).stage? id = some (.between (l.cycle.add (l.report refused))) ∧
      l.Leaves refused store := by
  obtain ⟨-, hlive, -, hrest⟩ := hc
  obtain ⟨job', store', hworks⟩ := h.takes hlocks (hlive rfl) hr.1
  obtain ⟨store, report, hstore, hstage, hswept⟩ := hworks.steps (hlocks.step _) hrest hr.2
  refine ⟨store, hstore, ?_, hswept.leaves hl⟩
  rw [← hswept.report_eq]
  exact hstage

/-- The sweep of a mount takes any listing: if it is neither cancelled nor too late, it removes exactly the listed
entries of the mount that are expired and whose deletion is not refused, whatever else is listed and in whichever
order. -/
theorem sweeps_listing {c : Cache} {id : JobId} {job : Job} {l : Inventory} (hlocks : c.LocksSound)
    (h : c.Shown id job l) (hl : l.Lists) : c.SweepsListing id job l where
  exact events refused hc hr := h.exact hlocks hl hc hr
  unordered other id' job' l' events events' refused hlocks' h' hre hc hr hc' hr' := by
    obtain ⟨store, hstore, hstage, hleaves⟩ := h.exact hlocks hl hc hr
    obtain ⟨store', hstore', hstage', hleaves'⟩ := h'.exact hlocks' (hl.reorders hre) hc' hr'
    rw [hre.report_eq] at hstage'
    rw [hleaves.unique hre hleaves'] at hstore'
    exact ⟨store, l.report refused, hstore, hstore', hstage, hstage'⟩
  refuses events shelf hs ho hc := by
    have hcontent : shelf.store = l.content := Option.some.inj ((store_of_shelf hs).symm.trans h.content)
    refine refuses_of_bare hlocks hc hs ho (congrArg Store.bare hcontent) fun stage hstage => ?_
    cases hstage.symm.trans (stage?_eq h.here)
    rw [h.stage]
    exact fun deletion hdeletion => nomatch hdeletion
  completes hc ht := by
    have hnext : (Visit.list l.path l.cycle).next c.clock false (.listed l.entries) =
        Visit.sweepOn l.path l.now false {} l.entries l.cycle := by
      simp only [Visit.next, Visit.listOn, h.clock]
    exact completes_of_returned hlocks h.here h.stage (Nat.lt_succ_self _) hnext hc ht

/-- The listing of a store that shows all of its entries: two of the mount are removed, the deletion of one is
refused, one is valid, and one is of a mount whose path has the same start. -/
theorem sweeps_listing_faulty :
    let old : Record := ⟨[], { createdAt := default, notValidAfter := some default }⟩
    let new : Record := ⟨[], { createdAt := default }⟩
    let content : Store := .faulty { listAll := true, refuseDelete := ["keep"] }
      (.ofList [("a/1", old), ("a/2", old), ("a/keep", old), ("a/new", new), ("ab/1", old)])
    let first := fresh ⟨.ofList [("a", 0), ("ab", 0)]⟩ [content] 0 12 (.ofInstant default)
    let c := first.steps [.start .sweep .never, .run 0, .run 0]
    let events : List Event := [.run 0, .run 0, .run 0, .run 0]
    let entries : List KeyRecord := [⟨"a/1", old⟩, ⟨"a/2", old⟩, ⟨"a/keep", old⟩, ⟨"a/new", new⟩, ⟨"ab/1", old⟩]
    let l : Inventory := ⟨"a", 0, { rest := [("ab", 0)], deadline := 12 }, default, entries, content⟩
    let job : Job := ⟨.sweep, .never, .returned 0 (.list "a" l.cycle) (.listed entries)⟩
    c.LocksSound ∧ c.Shown 0 job l ∧ l.Lists ∧ Completes 0 .never l c events ∧
      Refuses 0 (refusedBy content) c events ∧
      l.report (refusedBy content) = { deleted := 2, failed := 1, valid := 1 } ∧ c.SweepsListing 0 job l := by
  intro old new content first c events entries l job
  have hlocks : c.LocksSound := (LocksSound.of_unused (unused_fresh ..)).steps _
  have hshown : c.Shown 0 job l := ⟨by decide +kernel, rfl, by decide +kernel, by decide +kernel⟩
  have hlists : l.Lists := Inventory.lists_of_perform trivial (by decide +kernel)
  exact ⟨hlocks, hshown, hlists, by decide +kernel, by decide +kernel, by decide +kernel,
    sweeps_listing hlocks hshown hlists⟩

end Cache

end RoutedCache

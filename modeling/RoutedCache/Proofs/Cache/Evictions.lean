import RoutedCache.Proofs.Cache.Counting
import RoutedCache.Proofs.Cache.Passes

/-!
# What the sweeps remove

Every deletion of a sweep that was acknowledged has removed one entry, which was there and had expired by the time at
which the sweep took up its listing (`Cache.Evicts`).  The deletions have turns of their own, so that no removal is
counted twice, and the turns of the sweeps remove nothing else: what they take out of the stores is what their reports
count and what was removed by the passes that have expired (`Cache.evictions_exact`).
-/

namespace RoutedCache

/-- The readable documents of the store name their own keys; a listing shows each record once and under its key. -/
def Store.NamesKeys : Store → Prop
  | .document _ _ _ documents => documents.Honest
  | _ => True

/-- The number of the entries of the store. -/
def Store.size : Store → Nat
  | .memory entries => entries.toList.length
  | .document _ _ _ documents => documents.toList.length
  | .faulty _ entries => entries.toList.length

namespace Round

/-- The entries that were removed by the passes of the round but for those that have expired. -/
def counted (round : Round) : Nat :=
  ((round.passes.filter fun pass => pass.fate ≠ some .expired).map (·.removals)).sum

/-- The entries that were removed by passes that have expired. -/
def timedOut (round : Round) : Nat :=
  ((round.passes.filter fun pass => pass.fate = some .expired).map (·.removals)).sum

end Round

/-- The entries that were removed in rounds without a report, by passes that have not expired. -/
def unreported (rounds : List Round) : Nat := ((rounds.filter (·.ended.isNone)).map (·.counted)).sum

instance (request : Request) : Decidable request.Sweeps :=
  inferInstanceAs (Decidable (request = .sweep ∨ request = .sweeper))

/-- The deletions of the rounds. -/
def deletionsOf (rounds : List Round) : List Deletion :=
  rounds.flatMap fun round => round.passes.flatMap (·.deletions)

/-- The turns in which the deletions of the rounds have removed an entry. -/
def removalTurns (rounds : List Round) : List Nat := ((deletionsOf rounds).filter (!·.refused)).map (·.turn)

namespace Cache

/-- The number of the entries of all stores. -/
def entries (c : Cache) : Nat := (c.stores.map Store.size).sum

/-- Whether the event is a turn of a sweep. -/
def isSweep (c : Cache) : Event → Bool
  | .run id | .expire id => (c.jobs[id]?.map fun job => decide job.request.Sweeps).getD false
  | _ => false

/-- How many entries the turns of the sweeps remove. -/
def sweptAway (c : Cache) : List Event → Nat
  | [] => 0
  | event :: events =>
    (if c.isSweep event then c.entries - (c.step event).entries else 0) + (c.step event).sweptAway events

/-- The deletion has removed an entry with this record, which the listing of the pass showed as expired. -/
structure Evicts (first : Cache) (events : List Event) (id : JobId) (pass : MountPass) (deletion : Deletion)
    (listing : Showing) (record : Record) : Prop where
  shown : pass.listing = some listing
  /-- The clock showed the time of the listing. -/
  clock : ∃ before, TurnOf events id listing.turn before ∧ (first.steps before).clock.read? = some listing.now
  owned : MountTable.owns pass.path deletion.key = true
  expired : record.isValidAt listing.now = false
  /-- The entry was there before the turn, and after it all is there but the entry. -/
  removed : ∃ before store cell, TurnOf events id deletion.turn before ∧
    (first.steps before).stores[pass.store]? = some store ∧ store.cell? deletion.key = some cell ∧
    cell.record? = some record ∧ (store.perform (.delete deletion.key)).1 = .done ∧
    (∀ key, (store.perform (.delete deletion.key)).2.cell? key =
      if key = deletion.key then none else store.cell? key) ∧
    (first.steps (before ++ [.run id])).stores =
      (first.steps before).stores.set pass.store (store.perform (.delete deletion.key)).2

end Cache

/-! ### Stores -/

theorem KeyMap.length_erase {α : Type} (m : KeyMap α) (key : String) :
    (m.erase key).toList.length + (if (m.get? key).isSome then 1 else 0) = m.toList.length := by
  obtain ⟨l, hl⟩ := m
  show (l.filter _).length + (if (l.lookup key).isSome then 1 else 0) = l.length
  induction l with
  | nil => rfl
  | cons e rest ih =>
    have hr := List.pairwise_cons.1 hl
    have ih := ih hr.2
    by_cases he : e.1 = key
    · -- The other entries have other keys.
      have hnone : rest.lookup key = none := by
        rw [List.lookup_eq_none_iff]
        intro p hp
        have hlt := hr.1 p hp
        rw [he] at hlt
        simp [String.ne_of_lt hlt]
      have hfound : (e :: rest).lookup key = some e.2 := by
        rw [List.lookup_cons]
        simp [he]
      rw [hnone] at ih
      rw [List.filter_cons_of_neg (by simpa using he), hfound, List.length_cons, ← ih]
      rfl
    · have hrest : (e :: rest).lookup key = rest.lookup key := by
        have hne : (key == e.1) = false := beq_eq_false_iff_ne.2 (Ne.symm he)
        rw [List.lookup_cons, hne]
      rw [List.filter_cons_of_pos (by simpa using he), hrest, List.length_cons, List.length_cons, ← ih]
      omega

namespace Store

variable {store : Store}

/-- A deletion that is acknowledged removes one entry if there is one. -/
theorem size_delete {key : String} (h : (store.perform (.delete key)).1 = .done) :
    (store.perform (.delete key)).2.size + (if (store.cell? key).isSome then 1 else 0) = store.size := by
  have hmap {α : Type} (f : α → Cell) (entries : KeyMap α) :
      (entries.erase key).toList.length + (if ((entries.get? key).map f).isSome then 1 else 0) =
        entries.toList.length := by
    rw [Option.isSome_map]
    exact entries.length_erase key
  cases store with
  | memory entries => exact hmap _ entries
  | document _ _ _ documents => exact hmap _ documents
  | faulty faults entries =>
    simp only [perform] at h ⊢
    split at h
    next => cases h
    next => exact hmap _ entries

theorem NamesKeys.perform (h : store.NamesKeys) (call : StoreCall) : (store.perform call).2.NamesKeys := by
  cases store with
  | memory => trivial
  | document => exact Documents.Honest.performDocuments h call
  | faulty faults entries =>
    simp only [Store.perform]
    split <;> trivial

/-- What a listing shows: the records of the store, each once and under its key. -/
theorem NamesKeys.list (h : store.NamesKeys) {start : String} {shown : List KeyRecord}
    (hl : (store.perform (.list start)).1 = .listed shown) :
    (shown.map (·.key)).Nodup ∧
      ∀ entry ∈ shown, ∃ cell, store.cell? entry.key = some cell ∧ cell.record? = some entry.record := by
  have hrecords (records : KeyMap Record) (p : String × Record → Bool)
      (hcell : ∀ key record, records.get? key = some record →
        ∃ cell, store.cell? key = some cell ∧ cell.record? = some record)
      (heq : shown = (records.toList.filter p).map fun e => ⟨e.1, e.2⟩) :
      (shown.map (·.key)).Nodup ∧
        ∀ entry ∈ shown, ∃ cell, store.cell? entry.key = some cell ∧ cell.record? = some entry.record := by
    subst heq
    constructor
    · have hsorted := records.sorted.filter p
      rw [List.map_map, List.Nodup, List.pairwise_map]
      exact hsorted.imp fun hlt => String.ne_of_lt hlt
    · intro entry hentry
      obtain ⟨e, he, rfl⟩ := List.mem_map.1 hentry
      exact hcell _ _ (KeyMap.mem_toList_iff.1 (List.mem_filter.1 he).1)
  have hvalue (entries : KeyMap Record) (key : String) (record : Record) (hget : entries.get? key = some record) :
      ∃ cell, (entries.get? key).map Cell.value = some cell ∧ cell.record? = some record :=
    ⟨.value record, by rw [hget]; rfl, rfl⟩
  cases store with
  | memory entries =>
    cases hl
    exact hrecords entries _ (hvalue entries) rfl
  | document _ _ _ documents =>
    cases hl
    refine hrecords documents.records _ (fun key record hget => ?_) (Documents.Honest.list h start)
    rw [Documents.get?_records, Option.bind_eq_some_iff] at hget
    obtain ⟨text, htext, hrecord⟩ := hget
    exact ⟨.text text, by simp [cell?, htext], hrecord⟩
  | faulty faults entries =>
    simp only [Store.perform] at hl
    split at hl
    next => cases hl
    next =>
      cases hl
      exact hrecords entries _ (hvalue entries) rfl

end Store

namespace Cache

variable {c first : Cache} {events : List Event} {id : JobId} {job : Job}

/-- What the calls keep of the stores is kept in every run. -/
theorem LocksSound.stores_all {P : Store → Prop} (hP : ∀ store call, P store → P (store.perform call).2)
    (h : c.LocksSound) (hc : ∀ store ∈ c.stores, P store) (events : List Event) :
    ∀ store ∈ (c.steps events).stores, P store := by
  induction events generalizing c with
  | nil => exact hc
  | cons event events ih =>
    refine ih (h.step event) ?_
    have heffect := h.effect event
    generalize c.step event = c' at heffect ⊢
    cases heffect with
    | start => exact hc
    | aside => exact hc
    | @skip id job _ _ _ _ he =>
      cases he with
      | @skip s _ shelf _ _ hs =>
        have hsame : storesOn (c.shelves.set s (shelf.givenUp id (job.stage.working shelf.store))) = c.stores :=
          storesOn_set hs rfl
        show ∀ store ∈ storesOn (c.shelves.set s (shelf.givenUp id (job.stage.working shelf.store))), P store
        rw [hsame]
        exact hc
    | @complete s shelf _ hs =>
      have hsame : storesOn (c.shelves.set s shelf.released) = c.stores := storesOn_set hs rfl
      show ∀ store ∈ storesOn (c.shelves.set s shelf.released), P store
      rw [hsame]
      exact hc
    | @turn _ _ _ shelves _ _ _ _ ht =>
      show ∀ store ∈ storesOn shelves, P store
      cases ht.touches with
      | rest heq =>
        rw [heq]
        exact hc
      | @call s _ call store _ hs _ heq =>
        rw [heq]
        intro other hother
        rcases List.mem_or_eq_of_mem_set hother with hother | rfl
        · exact hc other hother
        · exact hP store call (hc store (List.mem_of_getElem? hs))

end Cache

/-! ### Turns -/

private theorem deletionsOf_cons (begun : Nat) (pass : MountPass) (passes : List MountPass)
    (ended : Option (Nat × SweepReport)) (older : List Round) :
    deletionsOf ({ begun, passes := pass :: passes, ended } :: older) =
      pass.deletions ++ (passes.flatMap (·.deletions) ++ deletionsOf older) := by
  simp [deletionsOf]

/-- What a turn of a sweep does to its deletions and to the stores. -/
inductive Deletes (stores : List Store) (turn : Nat) (rounds rounds' : List Round) : List Store → Prop
  | one {deletion s stores'} (ht : deletion.turn = turn)
      (hd : (deletionsOf rounds').Perm (deletion :: deletionsOf rounds))
      (he : Erases stores s deletion.key deletion.reply stores') : Deletes stores turn rounds rounds' stores'
  | none (hd : deletionsOf rounds' = deletionsOf rounds) : Deletes stores turn rounds rounds' stores

private theorem Deletes.of_acts {stores stores' : List Store} {turn : Nat} {rounds : List Round}
    {pass pass' : MountPass} {new : Stage} (h : MountPass.Acts stores turn pass pass' new stores') (begun : Nat)
    {passes : List MountPass} {older : List Round}
    (hr : deletionsOf rounds = pass.deletions ++ (passes.flatMap (·.deletions) ++ deletionsOf older)) :
    Deletes stores turn rounds ({ begun, passes := pass' :: passes } :: older) stores' := by
  cases h with
  | @deletes key mount cycle reply _ hd he =>
    have hperm : (deletionsOf ({ begun, passes := pass' :: passes } :: older)).Perm
        (⟨turn, key, reply⟩ :: deletionsOf rounds) := by
      rw [deletionsOf_cons, hr, hd, List.append_assoc]
      exact List.perm_middle
    exact .one rfl hperm he
  | rests hd =>
    refine .none ?_
    rw [deletionsOf_cons, hr, hd]

theorem Cache.Works.deletes {c : Cache} {turn : Nat} {rounds rounds' : List Round} {stores' : List Store}
    (h : c.Works turn rounds rounds' stores') : Deletes c.stores turn rounds rounds' stores' := by
  cases h with
  | same => exact .none rfl
  | start => exact .none rfl
  | finish => exact .none rfl
  | enter hn _ _ ha =>
    rw [hn] at ha
    exact .of_acts ha _ (by simp [deletionsOf])
  | within _ _ ha => exact .of_acts ha _ (deletionsOf_cons ..)

namespace Cache

variable {c first : Cache} {events : List Event} {event : Event} {id : JobId} {job : Job}

/-- Every deletion has been made in a turn of its sweep. -/
theorem turn_of_deletion (hu : first.Unused) {deletion : Deletion}
    (hd : deletion ∈ deletionsOf (first.rounds events id)) : ∃ before, TurnOf events id deletion.turn before := by
  obtain ⟨round, hround, hpasses⟩ := List.mem_flatMap.1 hd
  obtain ⟨pass, hpass, hdeletion⟩ := List.mem_flatMap.1 hpasses
  obtain ⟨listing, content, -, hs⟩ := (sound_of_round hu hround hpass).shows hdeletion
  obtain ⟨earlier, later, heq⟩ := List.append_of_mem hdeletion
  obtain ⟨before, -, hturn, -⟩ := hs.deleted earlier deletion later heq
  exact ⟨before, hturn⟩

/-- A deletion that was not refused has removed an expired entry of its mount. -/
theorem evicts (hu : first.Unused) (hn : ∀ store ∈ first.stores, store.NamesKeys) {round : Round}
    (hround : round ∈ first.rounds events id) {pass : MountPass} (hpass : pass ∈ round.passes) {deletion : Deletion}
    (hdeletion : deletion ∈ pass.deletions) (hr : deletion.refused = false) :
    ∃ listing record, first.Evicts events id pass deletion listing record := by
  obtain ⟨listing, content, hl, hs⟩ := (sound_of_round hu hround hpass).shows hdeletion
  obtain ⟨early, hearly, hclock, hcontent⟩ := hs.taken
  have hnames := (LocksSound.of_unused hu).stores_all (fun _ call h => h.perform call) hn early content
    (List.mem_of_getElem? hcontent)
  obtain ⟨hnodup, hcells⟩ := hnames.list hs.listed
  obtain ⟨earlier, later, heq⟩ := List.append_of_mem hdeletion
  obtain ⟨before, store, hturn, hstore, hleft, herases⟩ := hs.deleted earlier deletion later heq
  obtain ⟨entry, hentry, hdoomed, hkey⟩ := hs.entry hdeletion
  simp only [KeyRecord.isDoomed, Bool.and_eq_true, Bool.not_eq_true'] at hdoomed
  obtain ⟨cell, hcell, hrecord⟩ := hcells entry hentry
  -- No key is deleted twice, for the listing has shown each of them once.
  have hfresh : removes earlier deletion.key = false := by
    have hkeys : (pass.deletions.map (·.key)).Nodup :=
      (hs.keys.sublist.trans (List.filter_sublist.map _)).nodup hnodup
    rw [heq, List.map_append, List.nodup_append] at hkeys
    rw [removes, List.any_eq_false]
    intro other hother hremoved
    simp only [Bool.and_eq_true, decide_eq_true_eq] at hremoved
    exact hkeys.2.2 other.key (List.mem_map_of_mem hother) deletion.key (by simp) hremoved.2
  refine ⟨listing, entry.record, hl, ⟨early, hearly, hclock⟩, hkey ▸ hdoomed.1, hdoomed.2, before, store, cell,
    hturn, hstore, ?_, hrecord, ?_⟩
  · rw [hleft, hfresh, ← hkey]
    exact hcell
  · obtain ⟨other, hother, hd, hc, hafter⟩ := herases.acknowledged hr
    cases hstore.symm.trans hother
    exact ⟨hd, hc, hafter⟩

/-- A job that is no sweep has no log. -/
private theorem other_log_step (hu : first.Unused) (hj : (first.steps events).jobs[id]? = some job)
    (hr : ¬job.request.Sweeps) (event : Event) :
    first.rounds events id = [] ∧ first.rounds (events ++ [event]) id = [] := by
  obtain ⟨stage, hnext⟩ := ((LocksSound.of_unused hu).steps events).job_step hj event
  rw [← steps_snoc] at hnext
  exact ⟨(tracks_steps hu events hj).eq_nil hr, (tracks_steps hu _ hnext).eq_nil hr⟩

/-- The log of a job gets at most one deletion in an event, and its turn is that event. -/
theorem deletions_step (hu : first.Unused) (events : List Event) (event : Event) (id : JobId) :
    deletionsOf (first.rounds (events ++ [event]) id) = deletionsOf (first.rounds events id) ∨
    ∃ deletion, deletion.turn = events.length ∧
      (deletionsOf (first.rounds (events ++ [event]) id)).Perm
        (deletion :: deletionsOf (first.rounds events id)) := by
  by_cases hm : event.Moves id
  · cases hj : (first.steps events).jobs[id]? with
    | none => exact .inl (by rw [rounds_snoc, note_absent hj])
    | some job =>
      by_cases hr : job.request.Sweeps
      · have hdeletes := (works hu hj hr hm).deletes
        generalize (first.steps (events ++ [event])).stores = stores' at hdeletes
        cases hdeletes with
        | one ht hd => exact .inr ⟨_, ht, hd⟩
        | none hd => exact .inl hd
      · obtain ⟨hbefore, hafter⟩ := other_log_step hu hj hr event
        exact .inl (by rw [hbefore, hafter])
  · exact .inl (by rw [rounds_snoc, note_other hm])

/-- No two deletions of a sweep have the same turn. -/
private theorem nodup_turns (hu : first.Unused) (events : List Event) (id : JobId) :
    ((deletionsOf (first.rounds events id)).map (·.turn)).Nodup := by
  induction events using List.reverseRecOn with
  | nil => exact List.nodup_nil
  | append_singleton events event ih =>
    rcases deletions_step hu events event id with heq | ⟨deletion, hturn, hperm⟩
    · rw [heq]
      exact ih
    · rw [(hperm.map _).nodup_iff, List.map_cons, List.nodup_cons]
      refine ⟨fun hmem => ?_, ih⟩
      obtain ⟨other, hother, heq⟩ := List.mem_map.1 hmem
      obtain ⟨before, hbefore⟩ := turn_of_deletion hu hother
      have hlt := hbefore.lt
      omega

/-- The turns in which the sweeps have removed entries are all different. -/
private theorem nodup_removals (hu : first.Unused) (events : List Event) (n : Nat) :
    ((List.range n).flatMap fun id => removalTurns (first.rounds events id)).Nodup := by
  rw [List.nodup_flatMap]
  constructor
  · intro id _
    exact (List.filter_sublist.map _).nodup (nodup_turns hu events id)
  · refine List.nodup_range.imp_of_mem fun {id j} _ _ hne => ?_
    intro turn hmem hmem'
    obtain ⟨deletion, hdeletion, rfl⟩ := List.mem_map.1 hmem
    obtain ⟨other, hother, heq⟩ := List.mem_map.1 hmem'
    obtain ⟨before, hbefore⟩ := turn_of_deletion hu (List.mem_filter.1 hdeletion).1
    obtain ⟨before', hbefore'⟩ := turn_of_deletion hu (List.mem_filter.1 hother).1
    rw [heq] at hbefore'
    exact hne (hbefore.unique hbefore').2

/-! ### Totals -/

theorem sweptAway_snoc (c : Cache) (events : List Event) (event : Event) :
    c.sweptAway (events ++ [event]) = c.sweptAway events + (if (c.steps events).isSweep event then
      (c.steps events).entries - ((c.steps events).step event).entries else 0) := by
  induction events generalizing c with
  | nil => exact Nat.add_comm ..
  | cons first events ih =>
    rw [List.cons_append, sweptAway, ih, sweptAway, Nat.add_assoc]
    rfl

private theorem sum_set {l : List Nat} {i a b : Nat} (h : l[i]? = some a) : (l.set i b).sum + a = l.sum + b := by
  induction l generalizing i with
  | nil => cases h
  | cons first rest ih =>
    cases i with
    | zero =>
      cases h
      simp only [List.set_cons_zero, List.sum_cons]
      omega
    | succ i =>
      have hrest := ih h
      simp only [List.set_cons_succ, List.sum_cons]
      omega

/-- A removal takes one entry out of the stores. -/
private theorem entries_removed {stores : List Store} {s : Nat} {store : Store} {key : String} {cell : Cell}
    (hs : stores[s]? = some store) (hcell : store.cell? key = some cell)
    (hd : (store.perform (.delete key)).1 = .done) :
    ((stores.set s (store.perform (.delete key)).2).map Store.size).sum + 1 = (stores.map Store.size).sum := by
  have hsize := Store.size_delete hd
  have hsum := sum_set (show (stores.map Store.size)[s]? = some store.size by rw [List.getElem?_map, hs]; rfl)
    (b := (store.perform (.delete key)).2.size)
  rw [hcell] at hsize
  rw [List.map_set]
  simp only [Option.isSome_some, if_true] at hsize
  omega

/-- The turn of a sweep takes as many entries out of the stores as its log gets removals. -/
private theorem entries_turn (hu : first.Unused) (hn : ∀ store ∈ first.stores, store.NamesKeys)
    (hj : (first.steps events).jobs[id]? = some job) (hr : job.request.Sweeps) (hm : event.Moves id) :
    (first.steps events).entries - (first.steps (events ++ [event])).entries +
        (removalTurns (first.rounds events id)).length =
      (removalTurns (first.rounds (events ++ [event]) id)).length := by
  have hdeletes := (works hu hj hr hm).deletes
  generalize hafter : (first.steps (events ++ [event])).stores = stores' at hdeletes
  have hlength : ∀ rounds, (removalTurns rounds).length = (deletionsOf rounds).countP (!·.refused) := by
    intro rounds
    rw [removalTurns, List.length_map, List.countP_eq_length_filter]
  rw [hlength, hlength]
  unfold entries
  rw [hafter]
  cases hdeletes with
  | none hd =>
    rw [hd]
    omega
  | @one deletion s _ ht hd he =>
    rw [hd.countP_eq, List.countP_cons]
    cases hrefused : deletion.refused with
    | true =>
      rw [he.refused hrefused]
      simp
    | false =>
      obtain ⟨round, hround, hpasses⟩ := List.mem_flatMap.1 (hd.symm.subset List.mem_cons_self)
      obtain ⟨pass, hpass, hdeletion⟩ := List.mem_flatMap.1 hpasses
      obtain ⟨listing, record, hevicts⟩ := evicts hu hn hround hpass hdeletion hrefused
      obtain ⟨before, store, cell, hturn, hstore, hcell, -, hdone, -, hstores⟩ := hevicts.removed
      have hlast := hturn.here.eq_of_length (by simp [hturn.number, ht])
      obtain ⟨rfl, -⟩ := List.append_inj' hlast rfl
      have hone := entries_removed hstore hcell hdone
      rw [hlast, hafter] at hstores
      rw [hstores, ← hone]
      simp
      omega

private theorem isSweep_eq (hj : c.jobs[id]? = some job) (hm : event.Moves id) :
    c.isSweep event = decide job.request.Sweeps := by
  cases event with
  | run j =>
    obtain rfl : j = id := hm
    simp only [isSweep, hj]
    rfl
  | expire j =>
    obtain rfl : j = id := hm
    simp only [isSweep, hj]
    rfl
  | _ => exact hm.elim

private theorem isSweep_eq_false (h : ∀ id job, c.jobs[id]? = some job → ¬event.Moves id) :
    c.isSweep event = false := by
  have hnone {id : JobId} (hm : event.Moves id) : c.jobs[id]? = none := by
    cases hj : c.jobs[id]? with
    | none => rfl
    | some job => exact absurd hm (h id job hj)
  cases event with
  | run j => simp [isSweep, hnone (show (Event.run j).Moves j from rfl)]
  | expire j => simp [isSweep, hnone (show (Event.expire j).Moves j from rfl)]
  | _ => rfl

/-- No job is forgotten. -/
private theorem LocksSound.length_le (h : c.LocksSound) (event : Event) :
    c.jobs.length ≤ (c.step event).jobs.length := by
  by_contra hlt
  obtain ⟨stage, hnext⟩ := h.job_step (List.getElem?_eq_getElem (Nat.lt_of_not_le hlt)) event
  exact Nat.lt_irrefl _ (List.getElem?_eq_some_iff.1 hnext).1

/-- A sum over the logs of all jobs, which the jobs to come add nothing to. -/
private theorem sum_logs (hu : first.Unused) {g : List Round → Nat} (hg : g [] = 0) {n : Nat}
    (hn : (first.steps events).jobs.length ≤ n) :
    ∑ id ∈ Finset.range (first.steps events).jobs.length, g (first.rounds events id) =
      ∑ id ∈ Finset.range n, g (first.rounds events id) := by
  refine Finset.sum_subset (Finset.range_mono hn) fun id _ hout => ?_
  rw [rounds_absent hu (List.getElem?_eq_none_iff.2 (by simpa using hout)), hg]

/-- What the turns of the sweeps take out of the stores is what the logs tell. -/
private theorem sweptAway_eq (hu : first.Unused) (hn : ∀ store ∈ first.stores, store.NamesKeys)
    (events : List Event) :
    first.sweptAway events = ∑ id ∈ Finset.range (first.steps events).jobs.length,
      (removalTurns (first.rounds events id)).length := by
  induction events using List.reverseRecOn with
  | nil =>
    show 0 = ∑ id ∈ Finset.range first.jobs.length, _
    rw [hu.jobs]
    rfl
  | append_singleton events event ih =>
    have hlength : (first.steps events).jobs.length ≤ (first.steps (events ++ [event])).jobs.length := by
      rw [steps_snoc]
      exact ((LocksSound.of_unused hu).steps events).length_le event
    rw [sweptAway_snoc, ih, sum_logs hu (g := fun rounds => (removalTurns rounds).length) rfl hlength, ← steps_snoc]
    by_cases hm : ∃ id job, (first.steps events).jobs[id]? = some job ∧ event.Moves id
    · obtain ⟨id, job, hj, hm⟩ := hm
      have hlt := Nat.lt_of_lt_of_le (List.getElem?_eq_some_iff.1 hj).1 hlength
      have hothers (j : JobId) (hne : j ≠ id) : (removalTurns (first.rounds (events ++ [event]) j)).length =
          (removalTurns (first.rounds events j)).length := by
        rw [rounds_snoc, note_other fun h => hne (h.unique hm)]
      have hsum := sum_range_change hlt hothers
      rw [isSweep_eq hj hm]
      by_cases hr : job.request.Sweeps
      · have hturn := entries_turn hu hn hj hr hm
        simp only [hr, decide_true, if_true]
        omega
      · have hlog := other_log_step hu hj hr event
        rw [hlog.1, hlog.2] at hsum
        simp only [hr, decide_false, Bool.false_eq_true, if_false]
        omega
    · have hsame : first.rounds (events ++ [event]) = first.rounds events := by
        funext id
        rw [rounds_snoc]
        by_cases hmoves : event.Moves id
        · cases hj : (first.steps events).jobs[id]? with
          | none => exact note_absent hj
          | some job => exact absurd ⟨id, job, hj, hmoves⟩ hm
        · exact note_other hmoves
      rw [hsame, isSweep_eq_false fun id job hj hmoves => hm ⟨id, job, hj, hmoves⟩]
      rfl

end Cache

section Balance

variable {table : List (String × Nat)} {request : Request} {cancelled : Bool} {stage : Stage} {rounds : List Round}

/-- A report counts what was removed by the passes that have not expired. -/
theorem Covers.deleted {passes : List MountPass} {rest : List (String × Nat)} {total : SweepReport}
    (h : Covers table cancelled passes rest total) :
    total.deleted = ((passes.filter fun pass => pass.fate ≠ some .expired).map (·.removals)).sum := by
  rw [h.total]
  have hclosed := h.closed
  clear h
  induction passes with
  | nil => rfl
  | cons pass passes ih =>
    have hrest := ih fun other hother => hclosed other (List.mem_cons_of_mem _ hother)
    rw [shares_cons, SweepReport.merge, hrest]
    cases hclosed pass List.mem_cons_self with
    | swept hf _ _ hr =>
      rw [List.filter_cons_of_pos (by simp [hf]), List.map_cons, List.sum_cons, hr.deleted]
      exact Nat.add_comm ..
    | failed hf _ hd hs =>
      rw [List.filter_cons_of_pos (by simp [hf]), List.map_cons, List.sum_cons, MountPass.removals, hd, hs]
      exact (Nat.zero_add _).symm
    | expired hf hs =>
      rw [List.filter_cons_of_neg (by simp [hf]), hs]
      rfl

/-- The rounds with a report are over, and so are all rounds while their sweep is in none and has not been broken
off. -/
theorem Tracks.round_over (h : Tracks table request cancelled stage rounds) {round : Round} (hround : round ∈ rounds)
    (he : round.ended ≠ none ∨ stage.cycle? = none ∧ stage ≠ .finished .broken) : round.Over table cancelled := by
  have hcons {begun : Nat} {passes : List MountPass} {older : List Round}
      (hopen : stage.cycle? ≠ none ∨ stage = .finished .broken) (ho : ∀ round ∈ older, round.Over table cancelled)
      (hround : round ∈ { begun, passes : Round } :: older) : round.Over table cancelled := by
    rcases List.mem_cons.1 hround with rfl | hround
    · rcases he with he | ⟨hnone, hne⟩
      · exact absurd rfl he
      · exact (hopen.elim (· hnone) hne).elim
    · exact ho round hround
  cases h with
  | away => cases hround
  | ready => cases hround
  | resting _ _ ho => exact ho round hround
  | between _ _ ho => exact hcons (.inl (by simp [Stage.cycle?])) ho hround
  | within _ hk _ _ ho => exact hcons (.inl (by simp [Stage.cycle?_of_sweeping? hk])) ho hround
  | swept _ _ ho =>
    rw [List.mem_singleton] at hround
    exact hround ▸ ho
  | broken _ _ ho => exact hcons (.inr rfl) ho hround

theorem Round.Over.deleted {round : Round} (h : round.Over table cancelled) {turn : Nat} {report : SweepReport}
    (he : round.ended = some (turn, report)) : report.deleted = round.counted := by
  obtain ⟨turn', report', rest, hended, hcovers, -⟩ := h.ended
  cases he.symm.trans hended
  exact hcovers.deleted

/-- What a pass removes is counted, or it was removed by a pass that has expired. -/
private theorem sum_removals (passes : List MountPass) :
    (passes.map (·.removals)).sum = ((passes.filter fun pass => pass.fate ≠ some .expired).map (·.removals)).sum +
      ((passes.filter fun pass => pass.fate = some .expired).map (·.removals)).sum := by
  induction passes with
  | nil => rfl
  | cons pass passes ih =>
    by_cases hf : pass.fate = some .expired
    · rw [List.filter_cons_of_neg (by simp [hf]), List.filter_cons_of_pos (by simp [hf])]
      simp only [List.map_cons, List.sum_cons]
      omega
    · rw [List.filter_cons_of_pos (by simp [hf]), List.filter_cons_of_neg (by simp [hf])]
      simp only [List.map_cons, List.sum_cons]
      omega

private theorem length_removalTurns (rounds : List Round) :
    (removalTurns rounds).length = (rounds.map fun round => round.counted + round.timedOut).sum := by
  have hpass (round : Round) :
      (round.passes.flatMap (·.deletions)).countP (!·.refused) = round.counted + round.timedOut := by
    rw [List.countP_flatMap]
    exact sum_removals round.passes
  rw [removalTurns, List.length_map, ← List.countP_eq_length_filter, deletionsOf, List.countP_flatMap]
  exact congrArg List.sum (List.map_congr_left fun round _ => hpass round)

/-- What a sweep has removed is in its reports, or it was removed by passes that have expired, or in a round without a
report. -/
private theorem balance (h : ∀ round ∈ rounds, ∀ turn report, round.ended = some (turn, report) →
    report.deleted = round.counted) :
    ((reportsOf rounds).map (·.deleted)).sum + (rounds.map (·.timedOut)).sum + unreported rounds =
      (removalTurns rounds).length := by
  rw [length_removalTurns]
  induction rounds with
  | nil => rfl
  | cons round rounds ih =>
    have hrest := ih fun other hother => h other (List.mem_cons_of_mem _ hother)
    unfold reportsOf unreported at hrest ⊢
    cases he : round.ended with
    | none =>
      rw [List.filterMap_cons_none (by simp [he]), List.filter_cons_of_pos (by simp [he])]
      simp only [List.map_cons, List.sum_cons]
      omega
    | some ended =>
      have hdeleted := h round List.mem_cons_self ended.1 ended.2 he
      rw [List.filterMap_cons_some (by simp [he]; rfl), List.filter_cons_of_neg (by simp [he])]
      simp only [List.map_cons, List.sum_cons]
      omega

end Balance

/-! ### The removals of a run -/

namespace Cache

/-- What the reports of the sweeps tell of the entries that the sweeps remove. -/
structure EvictionsExact (first : Cache) (events : List Event) : Prop where
  /-- Every removal took an entry that was there and had expired by the time of the listing. -/
  sound : ∀ id, ∀ round ∈ first.rounds events id, ∀ pass ∈ round.passes, ∀ deletion ∈ pass.deletions,
    deletion.refused = false → ∃ listing record, first.Evicts events id pass deletion listing record
  /-- No two removals share a turn, be they of one pass, of two passes or of two sweeps. -/
  once : ((List.range (first.steps events).jobs.length).flatMap fun id =>
    removalTurns (first.rounds events id)).Nodup
  /-- The report of a round counts the removals of those of its passes that have not expired. -/
  reported : ∀ id, ∀ round ∈ first.rounds events id, ∀ turn report, round.ended = some (turn, report) →
    report.deleted = round.counted
  /-- A sweep that was called for is answered with the report of its only round. -/
  answered : ∀ id report, (first.steps events).answer? id = some (.swept report) →
    reportsOf (first.rounds events id) = [report]
  /-- At all times the turns of the sweeps have removed what the reports count, what expired passes have removed and
  what was removed in rounds that have no report. -/
  total : ∑ id ∈ Finset.range (first.steps events).jobs.length,
      (((reportsOf (first.rounds events id)).map (·.deleted)).sum +
        ((first.rounds events id).map (·.timedOut)).sum + unreported (first.rounds events id)) =
    first.sweptAway events
  /-- While no sweep is under way and none was broken off for want of a time, every round has its report. -/
  settled : (∀ id, ((first.steps events).stage? id).bind Stage.cycle? = none) →
    (∀ id, (first.steps events).answer? id ≠ some .broken) →
      ∑ id ∈ Finset.range (first.steps events).jobs.length,
          ((reportsOf (first.rounds events id)).map (·.deleted)).sum +
        ∑ id ∈ Finset.range (first.steps events).jobs.length, ((first.rounds events id).map (·.timedOut)).sum =
      first.sweptAway events

variable {first : Cache} {events : List Event}

/-- The report of a round counts what was removed by those of its passes that have not expired. -/
theorem deleted_of_ended (hu : first.Unused) {id : JobId} {round : Round}
    (hround : round ∈ first.rounds events id) {turn : Nat} {report : SweepReport}
    (he : round.ended = some (turn, report)) : report.deleted = round.counted := by
  obtain ⟨job, hj⟩ := job_of_round hu hround
  exact ((tracks_steps hu events hj).round_over hround (.inl (by simp [he]))).deleted he

private theorem total_eq (hu : first.Unused) (hn : ∀ store ∈ first.stores, store.NamesKeys) (events : List Event) :
    ∑ id ∈ Finset.range (first.steps events).jobs.length,
        (((reportsOf (first.rounds events id)).map (·.deleted)).sum +
          ((first.rounds events id).map (·.timedOut)).sum + unreported (first.rounds events id)) =
      first.sweptAway events := by
  rw [sweptAway_eq hu hn]
  exact Finset.sum_congr rfl fun id _ => balance fun round hround turn report he => deleted_of_ended hu hround he

/-- While a sweep is neither under way nor broken off, its rounds have their reports. -/
private theorem unreported_eq_zero (hu : first.Unused) {id : JobId}
    (hc : ((first.steps events).stage? id).bind Stage.cycle? = none)
    (hb : (first.steps events).answer? id ≠ some .broken) : unreported (first.rounds events id) = 0 := by
  have hnone : (first.rounds events id).filter (·.ended.isNone) = [] := by
    rw [List.filter_eq_nil_iff]
    intro round hround
    obtain ⟨job, hj⟩ := job_of_round hu hround
    rw [stage?_eq hj] at hc
    have hbroken : job.stage ≠ .finished .broken := by
      intro heq
      exact hb (answer?_eq_some_iff.2 ⟨job, hj, heq⟩)
    obtain ⟨turn, report, -, hended, -⟩ := ((tracks_steps hu events hj).round_over hround (.inr ⟨hc, hbroken⟩)).ended
    simp [hended]
  rw [unreported, hnone]
  rfl

/-- In every run the removals of the sweeps are removals of expired entries, none is counted twice, and once no sweep
is under way the reports count them all but for those of expired passes. -/
theorem evictions_exact {first : Cache} (hu : first.Unused) (hn : ∀ store ∈ first.stores, store.NamesKeys)
    (events : List Event) : first.EvictionsExact events where
  sound id round hround pass hpass deletion hdeletion hr := evicts hu hn hround hpass hdeletion hr
  once := nodup_removals hu events _
  reported id round hround turn report he := deleted_of_ended hu hround he
  answered id report hanswer := by
    obtain ⟨job, hj, hs⟩ := answer?_eq_some_iff.1 hanswer
    have hstands := stands_steps hu events id job hj
    have htracks := tracks_steps hu events hj
    rw [hs] at hstands htracks
    exact htracks.reports_of_swept hstands
  total := total_eq hu hn events
  settled hc hb := by
    rw [← total_eq hu hn events, ← Finset.sum_add_distrib]
    refine Finset.sum_congr rfl fun id _ => ?_
    rw [unreported_eq_zero hu (hc id) (hb id)]
    rfl

/-- One sweep removes an entry in a mount that it does not finish in time and an entry in another mount of the same
store, and a second sweep removes what was left. -/
theorem evictions_exact_timeout :
    let old : Record := ⟨[], { createdAt := default, notValidAfter := some default }⟩
    let first := fresh ⟨(KeyMap.empty.insert "a" 0).insert "b" 0⟩
      [.faulty { deleteDelay := 5 } (((KeyMap.empty.insert "a/1" old).insert "a/2" old).insert "b/1" old)] 0 8
      (.ofInstant default)
    let events : List Event := [.start .sweep .never, .start .sweep .never,
      .run 0, .run 0, .run 1, .run 1, .run 0, .elapse 5, .run 0, .run 0, .elapse 3, .expire 0,
      .run 1, .run 1, .elapse 5, .run 1, .run 0, .run 1, .run 0, .run 0, .elapse 5, .run 0, .run 0, .run 0,
      .run 1, .run 1, .run 1, .run 1]
    first.Unused ∧ (∀ store ∈ first.stores, store.NamesKeys) ∧ EvictionsExact first events ∧
      (first.steps events).jobs.map (·.stage) = [.finished (.swept { deleted := 1, skippedMounts := 1 }),
        .finished (.swept { deleted := 1 })] ∧
      first.sweptAway events = 3 := by
  intro old first events
  have hu : first.Unused := unused_fresh ..
  have hn : ∀ store ∈ first.stores, store.NamesKeys := by
    intro store hstore
    obtain rfl := List.mem_singleton.1 hstore
    trivial
  refine ⟨hu, hn, evictions_exact hu hn events, ?_, ?_⟩
  · decide +kernel
  · decide +kernel

end Cache

end RoutedCache

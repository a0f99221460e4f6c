import RoutedCache.Proofs.Cache.Evictions
import RoutedCache.Proofs.MountTable
import RoutedCache.Proofs.Store.Erasing

/-!
# Mounts are swept apart from each other

In a round that no other job disturbs, a store differs from what it was at the beginning only by what the passes of the
round have removed, and a mount is shown the store as its earlier passes have left it (`Isolated`).  What these have
removed belongs to mounts with smaller paths, so that the records of the mount are shown as they were at the beginning
and none of them is removed by another pass.  A pass that sweeps its mount thus comes to what the sweep of this mount
alone would come to (`Store.sweptAlone`), whatever has become of the other passes (`Cache.sweeps_mounts_apart`).
-/

namespace RoutedCache

/-! ### The sweep of one mount -/

namespace Store

/-- What the report and the store come to when the entries of a listing are swept, one after the other, and the
deletions of some keys are refused. -/
def sweptEntries (path : String) (now : Instant) (refused : String → Bool) (report : SweepReport) (store : Store) :
    List KeyRecord → SweepReport × Store
  | [] => (report, store)
  | entry :: rest =>
    if !MountTable.owns path entry.key then sweptEntries path now refused report store rest
    else if entry.record.isValidAt now then
      sweptEntries path now refused { report with valid := report.valid + 1 } store rest
    else if refused entry.key then
      sweptEntries path now refused { report with failed := report.failed + 1 } store rest
    else
      sweptEntries path now refused { report with deleted := report.deleted + 1 }
        (store.perform (.delete entry.key)).2 rest

/-- What the sweep of one mount by itself makes of a store: the report and the store after it, if the store shows its
entries. -/
def sweptAlone (store : Store) (path : String) (now : Instant) (refused : String → Bool) :
    Option (SweepReport × Store) :=
  match (store.perform (.list path)).1 with
  | .listed entries => some (sweptEntries path now refused {} store entries)
  | _ => none

variable {path : String} {now : Instant} {refused : String → Bool}

/-- The sweep of a mount passes over the entries of other mounts. -/
theorem sweptEntries_owned (report : SweepReport) (store : Store) (entries : List KeyRecord) :
    sweptEntries path now refused report store (owned path entries) =
      sweptEntries path now refused report store entries := by
  induction entries generalizing report store with
  | nil => rfl
  | cons entry rest ih =>
    unfold owned at ih ⊢
    cases howns : MountTable.owns path entry.key with
    | false =>
      rw [List.filter_cons_of_neg (by simp [howns]), ih, sweptEntries]
      simp [howns]
    | true =>
      rw [List.filter_cons_of_pos (by simp [howns])]
      simp only [sweptEntries, ih]

/-- The keys of the doomed entries. -/
def doomedKeys (path : String) (now : Instant) (entries : List KeyRecord) : List String :=
  (entries.filter (·.isDoomed path now)).map (·.key)

theorem sweptEntries_eq (report : SweepReport) (store : Store) (entries : List KeyRecord) :
    sweptEntries path now refused report store entries =
      ({ deleted := report.deleted + (doomedKeys path now entries).countP (!refused ·),
         failed := report.failed + (doomedKeys path now entries).countP refused,
         valid := report.valid + entries.countP (·.isKept path now), skippedMounts := report.skippedMounts },
        store.erasing ((doomedKeys path now entries).filter (!refused ·))) := by
  induction entries generalizing report store with
  | nil => rfl
  | cons entry rest ih =>
    unfold doomedKeys at ih ⊢
    rw [sweptEntries]
    cases howns : MountTable.owns path entry.key with
    | false => simp [ih, KeyRecord.isDoomed, KeyRecord.isKept, howns]
    | true =>
      cases hvalid : entry.record.isValidAt now with
      | true => simp [ih, KeyRecord.isDoomed, KeyRecord.isKept, howns, hvalid, Nat.add_assoc, Nat.add_comm 1]
      | false =>
        cases hrefused : refused entry.key with
        | true =>
          simp [ih, KeyRecord.isDoomed, KeyRecord.isKept, howns, hvalid, hrefused, Nat.add_assoc, Nat.add_comm 1]
        | false =>
          simp [ih, KeyRecord.isDoomed, KeyRecord.isKept, howns, hvalid, hrefused, Nat.add_assoc, Nat.add_comm 1,
            erasing_cons]

end Store

/-! ### What the passes have removed -/

namespace MountPass

/-- The keys under which the pass has removed an entry. -/
def removed (pass : MountPass) : List String := (pass.deletions.filter (!·.refused)).map (·.key)

/-- A pass deletes keys of its own mount only. -/
theorem Sound.owns {first : Cache} {events : List Event} {id : JobId} {pass : MountPass}
    (h : pass.Sound first events id) {deletion : Deletion} (hd : deletion ∈ pass.deletions) :
    MountTable.owns pass.path deletion.key = true := by
  obtain ⟨listing, content, -, hs⟩ := h.shows hd
  obtain ⟨entry, -, hdoomed, hkey⟩ := hs.entry hd
  simp only [KeyRecord.isDoomed, Bool.and_eq_true] at hdoomed
  exact hkey ▸ hdoomed.1

theorem Sound.segment {first : Cache} {events : List Event} {id : JobId} {pass : MountPass}
    (h : pass.Sound first events id) {key : String} (hk : key ∈ pass.removed) : leadingSegment key = pass.path := by
  obtain ⟨deletion, hdeletion, rfl⟩ := List.mem_map.1 hk
  exact MountTable.owns_iff.1 (h.owns (List.mem_filter.1 hdeletion).1)

/-- A pass that has dealt with its whole listing reports what the sweep of these entries comes to. -/
theorem Reports.sweptEntries {pass : MountPass} {listing : Showing}
    (h : pass.Reports listing listing.entries pass.share) {refused : String → Bool}
    (hrefused : ∀ deletion ∈ pass.deletions, deletion.refused = refused deletion.key) (content : Store) :
    Store.sweptEntries pass.path listing.now refused {} content listing.entries =
      (pass.share, content.erasing pass.removed) := by
  have hkeys : Store.doomedKeys pass.path listing.now listing.entries = pass.deletions.map (·.key) := h.keys.symm
  have hdeleted : (pass.deletions.map (·.key)).countP (!refused ·) = pass.removals := by
    rw [List.countP_map]
    exact List.countP_congr fun deletion hdeletion => by simp [hrefused deletion hdeletion]
  have hfailed : (pass.deletions.map (·.key)).countP refused = pass.refusals := by
    rw [List.countP_map]
    exact List.countP_congr fun deletion hdeletion => by simp [hrefused deletion hdeletion]
  have hremoved : (pass.deletions.map (·.key)).filter (!refused ·) = pass.removed := by
    rw [List.filter_map, removed]
    exact congrArg (List.map _) (List.filter_congr fun deletion hdeletion => by simp [hrefused deletion hdeletion])
  have hshare : pass.share =
      ⟨pass.removals, pass.refusals, listing.entries.countP (·.isKept pass.path listing.now), 0⟩ := by
    rw [← h.deleted, ← h.failed, ← h.valid, ← h.skipped]
  rw [Store.sweptEntries_eq, hkeys, hdeleted, hfailed, hremoved, hshare]
  simp

end MountPass

/-- The keys under which the passes, the latest first, have removed entries of a store, in the order of their turns. -/
def removedIn (s : Nat) : List MountPass → List String
  | [] => []
  | pass :: passes => removedIn s passes ++ if pass.store = s then pass.removed else []

theorem mem_removedIn {s : Nat} {passes : List MountPass} {key : String} :
    key ∈ removedIn s passes ↔ ∃ pass ∈ passes, pass.store = s ∧ key ∈ pass.removed := by
  induction passes with
  | nil => simp [removedIn]
  | cons pass passes ih =>
    rw [removedIn, List.mem_append, ih]
    by_cases heq : pass.store = s
    · simp [heq, or_comm]
    · simp [heq]

/-- Only the pass over a mount removes entries of the mount. -/
theorem mem_removedIn_of_owns {passes : List MountPass} {pass : MountPass} (hpaths : (passes.map (·.path)).Nodup)
    (hsegment : ∀ pass ∈ passes, ∀ key ∈ pass.removed, leadingSegment key = pass.path) (hpass : pass ∈ passes)
    {key : String} (howns : MountTable.owns pass.path key = true) :
    key ∈ removedIn pass.store passes ↔ key ∈ pass.removed := by
  rw [mem_removedIn]
  constructor
  · rintro ⟨other, hother, -, hremoved⟩
    have hpath : other.path = pass.path :=
      (hsegment other hother key hremoved).symm.trans (MountTable.owns_iff.1 howns)
    rw [← List.inj_on_of_nodup_map hpaths hother hpass hpath]
    exact hremoved
  · exact fun hremoved => ⟨pass, hpass, rfl, hremoved⟩

/-- The passes of a round, the latest first, have come to this since the stores were what they were at the beginning of
the round. -/
structure Isolated (start stores : List Store) (passes : List MountPass) : Prop where
  /-- The stores differ from what they were by what the passes have removed. -/
  left : ∀ s : Nat, stores[s]? = start[s]?.map (·.erasing (removedIn s passes))
  /-- A pass was shown what the passes before it had left. -/
  shown : ∀ later pass earlier listing, passes = later ++ pass :: earlier → pass.listing = some listing →
    ∃ content, start[pass.store]? = some content ∧
      ((content.erasing (removedIn pass.store earlier)).perform (.list pass.path)).1 = .listed listing.entries

/-- The pass has come to what the sweep of its mount by itself comes to at this time, from the stores as they were at
the beginning: its share of the report is the report of this sweep, and so are the entries of its mount. -/
def MountPass.AsAlone (pass : MountPass) (now : Instant) (refused : String → Bool) (start final : List Store) :
    Prop :=
  ∃ content store alone, start[pass.store]? = some content ∧ final[pass.store]? = some store ∧
    content.sweptAlone pass.path now refused = some (pass.share, alone) ∧
    ∀ key, MountTable.owns pass.path key = true → store.cell? key = alone.cell? key

namespace Isolated

variable {start stores stores' : List Store} {passes : List MountPass} {pass pass' : MountPass} {c : Cache}
  {turn : Nat} {new : Stage}

theorem refl (stores : List Store) : Isolated stores stores [] where
  left s := by simp [removedIn]
  shown later pass earlier listing heq := by simp at heq

/-- A pass that begins has removed nothing. -/
theorem enter (h : Isolated start stores passes) (path : String) (store : Nat) :
    Isolated start stores ({ path, store } :: passes) where
  left s := by
    rw [h.left, removedIn]
    split <;> simp [MountPass.removed]
  shown later pass earlier listing heq hl := by
    cases later with
    | nil =>
      cases heq
      cases hl
    | cons other later =>
      cases heq
      exact h.shown later pass earlier listing rfl hl

/-- A turn of the latest pass. -/
theorem acts (h : Isolated start c.stores (pass :: passes)) (hp : pass'.place = pass.place)
    (hl : MountPass.Takes c turn pass pass') (ha : MountPass.Acts c.stores turn pass pass' new stores') :
    Isolated start stores' (pass' :: passes) := by
  obtain ⟨hpath, hstore⟩ := Prod.mk.inj hp
  constructor
  · intro s
    cases ha with
    | @deletes key mount cycle reply _ hd he =>
      cases he with
      | @done store hs hdone =>
        have hremoved : pass'.removed = pass.removed ++ [key] := by
          simp [MountPass.removed, hd, Deletion.refused]
        rw [removedIn, hstore, hremoved]
        by_cases heq : pass.store = s
        · subst heq
          obtain ⟨content, hcontent, rfl⟩ := Option.map_eq_some_iff.1 ((h.left pass.store).symm.trans hs)
          rw [List.getElem?_set_self (List.getElem?_eq_some_iff.1 hs).1, hcontent, if_pos rfl, ← List.append_assoc,
            Option.map_some, Store.erasing_append, removedIn, if_pos rfl]
          rfl
        · rw [List.getElem?_set_ne heq, h.left, removedIn, if_neg heq, if_neg heq]
      | failed =>
        have hremoved : pass'.removed = pass.removed := by simp [MountPass.removed, hd, Deletion.refused]
        rw [removedIn, hstore, hremoved]
        exact h.left s
    | rests hd =>
      have hremoved : pass'.removed = pass.removed := by rw [MountPass.removed, hd, MountPass.removed]
      rw [removedIn, hstore, hremoved]
      exact h.left s
  · intro later other earlier listing heq hlisting
    cases later with
    | cons first later =>
      cases heq
      exact h.shown (pass :: later) other earlier listing rfl hlisting
    | nil =>
      cases heq
      rw [hpath, hstore]
      cases hl with
      | same hsame => exact h.shown [] pass passes listing rfl (hsame.symm.trans hlisting)
      | @taken _ store hnone hl _ _ hs hshown =>
        cases hl.symm.trans hlisting
        obtain ⟨content, hcontent, rfl⟩ := Option.map_eq_some_iff.1 ((h.left pass.store).symm.trans hs)
        refine ⟨content, hcontent, ?_⟩
        have hremoved : removedIn pass.store (pass :: passes) = removedIn pass.store passes := by
          simp [removedIn, MountPass.removed, hnone]
        rw [hremoved] at hshown
        exact hshown

/-- A pass that has dealt with all that it was shown has come to what the sweep of its mount alone comes to. -/
theorem asAlone (h : Isolated start stores passes)
    (hsorted : passes.Pairwise fun later earlier => earlier.path < later.path)
    (hsegment : ∀ pass ∈ passes, ∀ key ∈ pass.removed, leadingSegment key = pass.path) (hpass : pass ∈ passes)
    {listing : Showing} (hl : pass.listing = some listing) (hr : pass.Reports listing listing.entries pass.share)
    {refused : String → Bool} (hrefused : ∀ deletion ∈ pass.deletions, deletion.refused = refused deletion.key) :
    pass.AsAlone listing.now refused start stores := by
  obtain ⟨later, earlier, heq⟩ := List.append_of_mem hpass
  obtain ⟨content, hcontent, hlist⟩ := h.shown later pass earlier listing heq hl
  -- The passes before this one have not touched what the listing shows of its mount.
  have hsmaller : ∀ key ∈ removedIn pass.store earlier, leadingSegment key < pass.path := by
    intro key hkey
    obtain ⟨other, hother, -, hremoved⟩ := mem_removedIn.1 hkey
    rw [hsegment other (by rw [heq]; simp [hother]) key hremoved]
    rw [heq] at hsorted
    exact (List.pairwise_cons.1 (List.pairwise_append.1 hsorted).2.1).1 other hother
  obtain ⟨shown, hshown, howned⟩ := Store.list_erasing hsmaller hlist
  have hpaths : (passes.map (·.path)).Nodup := by
    rw [List.Nodup, List.pairwise_map]
    exact hsorted.imp fun hlt => (String.ne_of_lt hlt).symm
  refine ⟨content, content.erasing (removedIn pass.store passes), content.erasing pass.removed, hcontent, ?_, ?_, ?_⟩
  · rw [h.left, hcontent]
    rfl
  · rw [Store.sweptAlone, hshown]
    dsimp only
    rw [← Store.sweptEntries_owned, howned, Store.sweptEntries_owned, hr.sweptEntries hrefused]
  · intro key howns
    have hmem := mem_removedIn_of_owns hpaths hsegment hpass howns
    simp only [Store.cell?_erasing, hmem]

end Isolated

namespace Cache

variable {first : Cache} {events : List Event} {id : JobId} {job : Job} {round : Round}

/-- From the turn with this number on no other job changes the stores. -/
def Quiet (first : Cache) (events : List Event) (id : JobId) (since : Nat) : Prop :=
  ∀ before event, before ++ [event] <+: events → since ≤ before.length → ¬event.Moves id →
    (first.steps (before ++ [event])).stores = (first.steps before).stores

theorem Quiet.of_prefix {events' : List Event} {since : Nat} (h : first.Quiet events id since)
    (hp : events' <+: events) : first.Quiet events' id since :=
  fun before event hbefore => h before event (hbefore.trans hp)

theorem quiet_iff {since : Nat} : first.Quiet events id since ↔
    ∀ n : Fin events.length, since ≤ n.1 → ¬(events.get n).Moves id →
      (first.steps (events.take (n.1 + 1))).stores = (first.steps (events.take n.1)).stores := by
  constructor
  · intro h n hn hm
    have htake : events.take (n.1 + 1) = events.take n.1 ++ [events.get n] := List.take_succ_eq_append_getElem n.2
    have hlength : (events.take n.1).length = n.1 := List.length_take_of_le (Nat.le_of_lt n.2)
    rw [htake]
    exact h _ _ (htake ▸ List.take_prefix ..) (hlength.symm ▸ hn) hm
  · intro h before event hprefix hn hm
    obtain ⟨later, rfl⟩ := hprefix
    have hlt : before.length < (before ++ [event] ++ later).length := by simp
    have hget : (before ++ [event] ++ later).get ⟨before.length, hlt⟩ = event := by simp
    have hstores := h ⟨before.length, hlt⟩ hn (by rwa [hget])
    have htake : (before ++ [event] ++ later).take (before.length + 1) = before ++ [event] :=
      List.take_left' (by simp)
    have htake' : (before ++ [event] ++ later).take before.length = before := by simp
    rw [htake, htake'] at hstores
    exact hstores

instance (id : JobId) : DecidablePred (Event.Moves id)
  | .run j => inferInstanceAs (Decidable (j = id))
  | .expire j => inferInstanceAs (Decidable (j = id))
  | .start .. | .complete _ | .cancel _ | .elapse _ | .setClock _ => inferInstanceAs (Decidable False)

instance (first : Cache) (events : List Event) (id : JobId) (since : Nat) :
    Decidable (first.Quiet events id since) := decidable_of_iff' _ quiet_iff

/-- In a round that no other job disturbs the stores hang on the passes of the round only. -/
theorem isolated_steps (hu : first.Unused) (events : List Event) {round : Round} {older : List Round}
    (hr : first.rounds events id = round :: older) (he : round.ended = none)
    (hq : first.Quiet events id round.begun) : round.begun < events.length ∧
      Isolated (first.steps (events.take round.begun)).stores (first.steps events).stores round.passes := by
  induction events using List.reverseRecOn generalizing round older with
  | nil => cases hr
  | append_singleton events event ih =>
    have hprefix : events <+: events ++ [event] := List.prefix_append ..
    have honward {round : Round} {older : List Round} (hr : first.rounds events id = round :: older)
        (he : round.ended = none) (hq : first.Quiet (events ++ [event]) id round.begun) :
        round.begun < (events ++ [event]).length ∧
          Isolated (first.steps ((events ++ [event]).take round.begun)).stores (first.steps events).stores
            round.passes := by
      obtain ⟨hlt, hisolated⟩ := ih hr he (hq.of_prefix hprefix)
      rw [List.take_append_of_le_length (Nat.le_of_lt hlt), List.length_append]
      exact ⟨Nat.lt_add_right _ hlt, hisolated⟩
    by_cases hm : event.Moves id
    · cases hj : (first.steps events).jobs[id]? with
      | none =>
        rw [rounds_snoc, note_absent hj, rounds_absent hu hj] at hr
        cases hr
      | some job =>
        by_cases hsweeps : job.request.Sweeps
        · have hworks := works hu hj hsweeps hm
          rw [hr] at hworks
          generalize hold : first.rounds events id = rounds at hworks
          generalize (first.steps (events ++ [event])).stores = stores' at hworks ⊢
          cases hworks with
          | same => exact honward hold he hq
          | start =>
            rw [List.take_left' rfl, List.length_append]
            exact ⟨Nat.lt_add_one _, .refl _⟩
          | finish => cases he
          | @enter begun passes _ _ _ pass pass' hn hp hl ha =>
            obtain ⟨hlt, hisolated⟩ := honward hold rfl hq
            refine ⟨hlt, Isolated.acts ?_ hp hl ha⟩
            rw [hn]
            exact hisolated.enter ..
          | within hp hl ha =>
            obtain ⟨hlt, hisolated⟩ := honward hold rfl hq
            exact ⟨hlt, hisolated.acts hp hl ha⟩
        · obtain ⟨stage, hnext⟩ := ((LocksSound.of_unused hu).steps events).job_step hj event
          rw [← steps_snoc] at hnext
          rw [(tracks_steps hu _ hnext).eq_nil hsweeps] at hr
          cases hr
    · rw [rounds_snoc, note_other hm] at hr
      obtain ⟨hlt, hisolated⟩ := honward hr he hq
      have hlength := (ih hr he (hq.of_prefix hprefix)).1
      rw [hq events event List.prefix_rfl (Nat.le_of_lt hlength) hm]
      exact ⟨hlt, hisolated⟩

/-- The turn with the number has ended the round with the report. -/
structure EndedBy (first : Cache) (before : List Event) (id : JobId) (cancelled : Bool) (round : Round)
    (report : SweepReport) : Prop where
  rounds : ∃ older, first.rounds before id = { round with ended := none } :: older
  covers : ∃ rest, Covers first.mounts.mounts cancelled round.passes rest report ∧ (rest = [] ∨ cancelled = true)

private theorem ended_step (hu : first.Unused) (event : Event) (hj : (first.steps events).jobs[id]? = some job)
    (hround : round ∈ first.rounds (events ++ [event]) id) {turn : Nat} {report : SweepReport}
    (he : round.ended = some (turn, report)) : round ∈ first.rounds events id ∨
      turn = events.length ∧ first.EndedBy events id ((first.steps events).isCancelled job.token) round report := by
  have hlocks := (LocksSound.of_unused hu).steps events
  have hmounts := (LocksSound.of_unused hu).mounts_steps events
  have htracks := tracks_steps hu events hj
  have hnoted := hlocks.note_cases hj event events.length (first.rounds events)
  rw [← rounds_snoc] at hnoted
  have hopen {begun : Nat} {passes passes' : List MountPass} {older : List Round}
      (hround : round ∈ { begun, passes := passes' : Round } :: older) :
      round ∈ ({ begun, passes } : Round) :: older := by
    rcases List.mem_cons.1 hround with rfl | hround
    · cases he
    · exact List.mem_cons_of_mem _ hround
  cases hnoted with
  | same _ _ hlog =>
    rw [hlog] at hround
    exact .inl hround
  | turn _ ht _ _ _ hlog =>
    rw [← hmounts] at htracks
    have hlogged := (htracks.turned events.length ht).logged
    rw [← hlog] at hlogged
    generalize first.rounds (events ++ [event]) id = rounds' at hlogged hround
    generalize hold : first.rounds events id = rounds at hlogged ⊢
    cases hlogged with
    | outside => exact .inl hround
    | start =>
      rcases List.mem_cons.1 hround with rfl | hround
      · cases he
      · exact .inl hround
    | finish _ hc hrest =>
      rcases List.mem_cons.1 hround with rfl | hround
      · cases he
        rw [hmounts] at hc
        exact .inr ⟨rfl, ⟨_, hold⟩, _, hc, hrest⟩
      · exact .inl (List.mem_cons_of_mem _ hround)
    | enter => exact .inl (hopen hround)
    | within => exact .inl (hopen hround)
    | expire => exact .inl (hopen hround)
  | skip _ hx _ _ _ hlog =>
    cases hx with
    | @skip s cycle shelf hk =>
      obtain ⟨begun, pass, passes, older, heq, -, -⟩ := htracks.of_sweeping hk
      rw [hlog, heq, Round.expired_within hk] at hround
      rw [heq]
      exact .inl (hopen hround)

/-- A round with a report was ended in the turn that its log names. -/
theorem round_ended (hu : first.Unused) (hj : (first.steps events).jobs[id]? = some job)
    (hround : round ∈ first.rounds events id) {turn : Nat} {report : SweepReport}
    (he : round.ended = some (turn, report)) : turn < events.length ∧
      first.EndedBy (events.take turn) id ((first.steps (events.take turn)).isCancelled job.token) round report := by
  induction events using List.reverseRecOn generalizing job with
  | nil => cases hround
  | append_singleton events event ih =>
    cases hbefore : (first.steps events).jobs[id]? with
    | none =>
      rw [rounds_snoc, note_absent hbefore, rounds_absent hu hbefore] at hround
      cases hround
    | some old =>
      obtain ⟨stage, hnext⟩ := ((LocksSound.of_unused hu).steps events).job_step hbefore event
      rw [← steps_snoc, hj] at hnext
      cases hnext
      rcases ended_step hu event hbefore hround he with hround | ⟨rfl, hended⟩
      · obtain ⟨hlt, hended⟩ := ih hbefore hround
        rw [List.take_append_of_le_length (Nat.le_of_lt hlt), List.length_append]
        exact ⟨Nat.lt_add_right _ hlt, hended⟩
      · rw [List.take_left' rfl, List.length_append]
        exact ⟨Nat.lt_add_one _, hended⟩

/-- What a round over the mounts has come to, given which deletions are refused in which mount. -/
structure SweepsApart (first : Cache) (events : List Event) (id : JobId) (round : Round) (turn : Nat)
    (report : SweepReport) (refused : String → String → Bool) : Prop where
  /-- The round makes one pass over each mount, -/
  visited : (round.passes.map MountPass.place).reverse = first.mounts.mounts
  /-- in the order of the bytes of the paths. -/
  increasing : round.passes.reverse.Pairwise fun pass other => utf8 pass.path < utf8 other.path
  /-- The report counts as skipped the mounts whose pass has failed or was not done in time. -/
  skipped : report.skippedMounts = round.passes.countP fun pass => pass.fate ≠ some .swept
  /-- The report has nothing else of these passes; one that has failed was shown nothing and has deleted nothing. -/
  sick : ∀ pass ∈ round.passes, pass.fate ≠ some .swept → pass.share = { skippedMounts := 1 } ∧
    (pass.fate = some .expired ∨ pass.fate = some .failed ∧ pass.listing = none ∧ pass.deletions = [])
  /-- The report is the sum of the shares of the passes. -/
  total : report = shares round.passes
  /-- Any other pass comes to what the sweep of its mount alone comes to at the time that the clock shows after the
  listing, from the stores as they were when the round began. -/
  alone : ∀ pass ∈ round.passes, pass.fate = some .swept → ∃ listing, pass.listing = some listing ∧
    (∃ before, TurnOf events id listing.turn before ∧ (first.steps before).clock.read? = some listing.now) ∧
    pass.AsAlone listing.now (refused pass.path) (first.steps (events.take round.begun)).stores
      (first.steps (events.take turn)).stores

end Cache

/-- A report counts as skipped the mounts whose passes have not swept them. -/
theorem Covers.skipped {table : List (String × Nat)} {cancelled : Bool} {passes : List MountPass}
    {rest : List (String × Nat)} {total : SweepReport} (h : Covers table cancelled passes rest total) :
    total.skippedMounts = passes.countP fun pass => pass.fate ≠ some .swept := by
  rw [h.total]
  have hclosed := h.closed
  clear h
  induction passes with
  | nil => rfl
  | cons pass passes ih =>
    have hrest := ih fun other hother => hclosed other (List.mem_cons_of_mem _ hother)
    rw [shares_cons, SweepReport.merge, hrest, List.countP_cons]
    cases hclosed pass List.mem_cons_self with
    | swept hf _ _ hr => simp [hf, hr.skipped]
    | failed hf _ _ hs => simp [hf, hs]
    | expired hf hs => simp [hf, hs]

/-- The passes of a round over the whole table go over the mounts by increasing paths. -/
theorem Covers.sorted {mounts : MountTable Nat} {cancelled : Bool} {passes : List MountPass} {total : SweepReport}
    (h : Covers mounts.mounts cancelled passes [] total) :
    passes.Pairwise fun later earlier => earlier.path < later.path := by
  have hplaces := h.places
  rw [List.append_nil] at hplaces
  have hsorted := mounts.byPath.sorted
  rw [show mounts.byPath.toList = _ from hplaces.symm, List.pairwise_reverse, List.pairwise_map] at hsorted
  exact hsorted

namespace Cache

/-- In a round that is not cancelled and that no other job disturbs every mount is swept once, in the order of the
paths; the mounts whose passes fail or are not done in time are counted as skipped, and each other one is swept as if
it were the only one. -/
theorem sweeps_mounts_apart {first : Cache} (hu : first.Unused) {events : List Event} {id : JobId} {job : Job}
    (hj : (first.steps events).jobs[id]? = some job) {round : Round} (hround : round ∈ first.rounds events id)
    {turn : Nat} {report : SweepReport} (he : round.ended = some (turn, report))
    (hc : (first.steps (events.take turn)).isCancelled job.token = false)
    (hq : first.Quiet (events.take turn) id round.begun) {refused : String → String → Bool}
    (hrefused : ∀ pass ∈ round.passes, ∀ deletion ∈ pass.deletions,
      deletion.refused = refused pass.path deletion.key) :
    first.SweepsApart events id round turn report refused := by
  obtain ⟨hlt, ⟨older, hr⟩, rest, hcovers, hrest⟩ := round_ended hu hj hround he
  rw [hc] at hcovers hrest
  obtain rfl : rest = [] := hrest.resolve_right Bool.false_ne_true
  obtain ⟨hbegun, hisolated⟩ := isolated_steps hu (events.take turn) hr rfl hq
  rw [List.length_take] at hbegun
  rw [List.take_take, Nat.min_eq_left (Nat.le_of_lt (Nat.lt_of_lt_of_le hbegun (Nat.min_le_left ..)))] at hisolated
  have hsorted := hcovers.sorted
  have hsound (pass : MountPass) (hpass : pass ∈ round.passes) : pass.Sound first events id :=
    sound_of_round hu hround hpass
  constructor
  · have hplaces := hcovers.places
    rw [List.append_nil] at hplaces
    exact hplaces
  · rw [List.pairwise_reverse]
    exact hsorted.imp fun hlt => utf8_lt_iff.2 hlt
  · exact hcovers.skipped
  · intro pass hpass hnot
    cases hcovers.closed pass hpass with
    | swept hf => exact absurd hf hnot
    | failed hf hl hd hs => exact ⟨hs, .inr ⟨hf, hl, hd⟩⟩
    | expired hf hs => exact ⟨hs, .inl hf⟩
  · exact hcovers.total
  · intro pass hpass hswept
    cases hcovers.closed pass hpass with
    | failed hf => cases hswept.symm.trans hf
    | expired hf => cases hswept.symm.trans hf
    | @swept listing passed rest _ hl hentries hreports hend =>
      obtain rfl : rest = [] := hend.resolve_left Bool.false_ne_true
      rw [List.append_nil] at hentries
      rw [← hentries] at hreports
      refine ⟨listing, hl, ?_, ?_⟩
      · cases hsound pass hpass with
        | unlisted hnone => cases hnone.symm.trans hl
        | listed hl' hs =>
          cases hl'.symm.trans hl
          obtain ⟨before, hturn, hclock, -⟩ := hs.taken
          exact ⟨before, hturn, hclock⟩
      · refine hisolated.asAlone hsorted (fun other hother key hkey => ?_) hpass hl hreports (hrefused pass hpass)
        exact (hsound other hother).segment hkey

/-- One mount is too slow and not done in time, one refuses its lock and the lock of one is held by another job; the
fourth, which shares a store with the first, has one entry deleted and one refused, and keeps one. -/
theorem sweeps_mounts_apart_sick :
    let old : Record := ⟨[], { createdAt := default, notValidAfter := some default }⟩
    let new : Record := ⟨[], { createdAt := default }⟩
    let shared : KeyMap Record := .ofList
      [("a/1", old), ("a/2", old), ("a/3", old), ("c/1", old), ("c/keep", old), ("c/new", new)]
    let first := fresh ⟨.ofList [("a", 0), ("b", 1), ("c", 0), ("d", 2)]⟩
      [.faulty { deleteDelay := 5, refuseDelete := ["keep"] } shared,
        .faulty { refuseLock := true } (.ofList [("b/1", old)]), .memory (.ofList [("d/1", old)])] 0 12
      (.ofInstant default)
    let events : List Event := [.start (.hold 2 100) .never, .run 0, .start .sweep .never, .run 1, .run 1, .run 1,
      .elapse 5, .run 1, .run 1, .elapse 5, .run 1, .run 1, .elapse 2, .expire 1, .run 1, .run 1, .run 1, .elapse 5,
      .run 1, .run 1, .elapse 5, .run 1, .run 1, .run 1, .elapse 12, .expire 1, .run 1]
    let report : SweepReport := { deleted := 1, failed := 1, valid := 1, skippedMounts := 3 }
    let round := (first.rounds events 1).getD 0 { begun := 0 }
    let refused (_ key : String) : Bool := key = "c/keep"
    first.Unused ∧ (first.steps events).jobs[1]? = some ⟨.sweep, .never, .finished (.swept report)⟩ ∧
      round ∈ first.rounds events 1 ∧ round.ended = some (26, report) ∧
      (first.steps (events.take 26)).isCancelled .never = false ∧ first.Quiet (events.take 26) 1 round.begun ∧
      (∀ pass ∈ round.passes, ∀ deletion ∈ pass.deletions, deletion.refused = refused pass.path deletion.key) ∧
      first.SweepsApart events 1 round 26 report refused := by
  intro old new shared first events report round refused
  have hu : first.Unused := unused_fresh ..
  have hj : (first.steps events).jobs[1]? = some ⟨.sweep, .never, .finished (.swept report)⟩ := by decide +kernel
  have hround : round ∈ first.rounds events 1 := by decide +kernel
  have he : round.ended = some (26, report) := by decide +kernel
  have hc : (first.steps (events.take 26)).isCancelled .never = false := by decide +kernel
  have hq : first.Quiet (events.take 26) 1 round.begun := by decide +kernel
  have hrefused : ∀ pass ∈ round.passes, ∀ deletion ∈ pass.deletions,
      deletion.refused = refused pass.path deletion.key := by decide +kernel
  exact ⟨hu, hj, hround, he, hc, hq, hrefused, sweeps_mounts_apart hu hj hround he hc hq hrefused⟩

end Cache

end RoutedCache

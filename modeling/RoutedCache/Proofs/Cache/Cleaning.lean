import RoutedCache.Proofs.Cache.Inventory

/-!
# What a sweep takes out of a collection

The documents of a collection can be of any form and under any keys.  A listing shows a document under the key
that is written in it, and so a sweep deletes under that key.  The documents at the listing doom a key
(`Documents.Dooms`) if an expired one of them names it; a sweep removes no others (`Cache.removes_turn`), and
it leaves none of these in a mount that it goes through undisturbed (`Cache.SweepSound.leaves`).
-/

namespace RoutedCache

namespace Documents

/-- A document whose key starts with the path is expired, and the key in it is this one, which the mount
serves. -/
def Dooms (documents : Documents) (path : String) (now : Instant) (key : String) : Prop :=
  ∃ stored text entry, documents.get? stored = some text ∧ startsWith path stored = true ∧
    KeyRecord.decode? text = some entry ∧ entry.key = key ∧ MountTable.owns path key = true ∧
    entry.record.isValidAt now = false

variable {documents : Documents}

theorem mem_list_iff {start : String} {entry : KeyRecord} : entry ∈ documents.list start ↔
    ∃ stored text, documents.get? stored = some text ∧ startsWith start stored = true ∧
      KeyRecord.decode? text = some entry := by
  simp only [Documents.list, run_eq, List.mem_filterMap, List.mem_filter, Prod.exists]
  constructor
  · rintro ⟨stored, text, ⟨hmem, hstart⟩, hdecode⟩
    exact ⟨stored, text, KeyMap.mem_toList_iff.1 hmem, hstart, hdecode⟩
  · rintro ⟨stored, text, hget, hstart, hdecode⟩
    exact ⟨stored, text, ⟨KeyMap.mem_toList_iff.2 hget, hstart⟩, hdecode⟩

theorem dooms_iff {path key : String} {now : Instant} : documents.Dooms path now key ↔
    ∃ entry ∈ documents.list path, entry.isDoomed path now = true ∧ entry.key = key := by
  simp only [mem_list_iff, KeyRecord.isDoomed, Bool.and_eq_true, Bool.not_eq_true']
  constructor
  · rintro ⟨stored, text, entry, hget, hstart, hdecode, rfl, howns, hvalid⟩
    exact ⟨entry, ⟨stored, text, hget, hstart, hdecode⟩, ⟨howns, hvalid⟩, rfl⟩
  · rintro ⟨entry, ⟨stored, text, hget, hstart, hdecode⟩, ⟨howns, hvalid⟩, rfl⟩
    exact ⟨stored, text, entry, hget, hstart, hdecode, rfl, howns, hvalid⟩

/-- Among documents that name their own keys, the document of a doomed key is itself expired. -/
theorem Honest.expired (h : documents.Honest) {path key : String} {now : Instant}
    (hd : documents.Dooms path now key) :
    ∃ text entry, documents.get? key = some text ∧ KeyRecord.decode? text = some entry ∧ entry.key = key ∧
      entry.record.isValidAt now = false := by
  obtain ⟨stored, text, entry, hget, -, hdecode, rfl, -, hvalid⟩ := hd
  rw [← h stored text entry hget hdecode] at hget
  exact ⟨text, entry, hget, hdecode, rfl, hvalid⟩

end Documents

def Store.documents? : Store → Option Documents
  | document _ _ _ documents => some documents
  | _ => none

theorem Store.cell?_of_documents? {store : Store} {documents : Documents}
    (h : store.documents? = some documents) (key : String) :
    store.cell? key = (documents.get? key).map .text := by
  cases store with
  | document =>
    cases h
    rfl
  | _ => cases h

theorem Store.documents?_of_bare {store store' : Store} {documents : Documents}
    (h : store.documents? = some documents) (hbare : store'.bare = store.bare) :
    ∃ documents', store'.documents? = some documents' := by
  cases store with
  | document =>
    cases store' with
    | document => exact ⟨_, rfl⟩
    | _ => cases hbare
  | _ => cases h

/-- A sweep that has not been cancelled leaves a store on the reply to a call. -/
theorem Transition.replied {c : Cache} {id : JobId} {job : Job} {old : Stage} {shelves : List Shelf} {s : Nat}
    {cycle cycle' : SweepCycle} (ht : Transition c id job old (.between cycle') shelves)
    (hk : old.sweeping? = some (s, cycle)) (hc : c.isCancelled job.token = false) :
    ∃ visit reply, old = .returned s visit reply ∧ visit.next c.clock false reply = .move cycle' := by
  have hclaim := Stage.claim?_of_sweeping? hk
  have hwants {store : Nat} {visit : Visit} (hw : Wants c job old store visit) : False := by
    rw [Cache.claim?_wants hw] at hclaim
    cases hclaim
  generalize hnew : Stage.between cycle' = new at ht
  cases ht with
  | aside ha =>
    rw [(Cache.claim?_aside ha).1] at hclaim
    cases hclaim
  | refuse hw => exact (hwants hw).elim
  | cancel hw => exact (hwants hw).elim
  | queue hw => exact (hwants hw).elim
  | enter hw => exact (hwants hw).elim
  | grant _ _ _ hv => cases hv <;> cases hnew
  | call => cases hnew
  | stay _ _ hv => cases hv <;> cases hnew
  | @leave _ _ _ turn _ _ hl =>
    cases hl with
    | cancelled hcancelled =>
      rw [hc] at hcancelled
      cases hcancelled
    | @next store visit reply _ hnext _ =>
      obtain rfl : store = s := Option.some.inj hclaim
      refine ⟨visit, reply, rfl, ?_⟩
      rw [hc] at hnext
      rw [hnext]
      cases turn with
      | move =>
        cases hnew
        rfl
      | _ => cases hnew
    | held => cases hk

namespace Cache

/-- The documents of a store. -/
def documents? (c : Cache) (s : Nat) : Option Documents := c.stores[s]?.bind Store.documents?

/-- In the turn after `early` the sweep has taken up the listing of a mount, given the time and the documents
then, and in the turn after `before` it is still in the store of the mount. -/
structure SweepsMount (first : Cache) (early before : List Event) (id : JobId) (path : String) (s : Nat)
    (now : Instant) (listed : Documents) : Prop where
  mount : (path, s) ∈ first.mounts.mounts
  taken : ∃ cycle entries,
    (first.steps early).stage? id = some (.returned s (.list path cycle) (.listed entries))
  since : ∃ during, before ++ [.run id] = early ++ .run id :: during
  inside : ∀ mid, early <+: mid → mid <+: before → (first.steps mid).inside? id = some s
  clock : (first.steps early).clock.read? = some now
  listed : (first.steps early).documents? s = some listed

/-- What a sweep does to the documents of the stores. -/
structure Cleans (first : Cache) (events : List Event) (id : JobId) (token : Token) : Prop where
  /-- A turn of the sweep changes no document.  If it removes one, the key was doomed by the documents that
  were listed, among which it was. -/
  removes : ∀ before event after, events = before ++ event :: after → event.Moves id →
    ∀ s documents, (first.steps before).documents? s = some documents →
      ∃ documents', (first.steps (before ++ [event])).documents? s = some documents' ∧ ∀ key,
        documents'.get? key = documents.get? key ∨ documents'.get? key = none ∧ event = .run id ∧
          ∃ early path now listed, first.SweepsMount early before id path s now listed ∧
            listed.get? key = documents.get? key ∧ listed.Dooms path now key ∧
            (listed.Honest → ∃ text entry, documents.get? key = some text ∧
              KeyRecord.decode? text = some entry ∧ entry.key = key ∧ entry.record.isValidAt now = false)
  /-- A sweep that leaves a mount, not being cancelled and with no deletion failed, has removed all doomed
  keys. -/
  completes : ∀ before after s stage cycle cycle' documents', events = before ++ .run id :: after →
    (first.steps before).stage? id = some stage → stage.sweeping? = some (s, cycle) →
    (first.steps (before ++ [.run id])).stage? id = some (.between cycle') →
    (first.steps before).isCancelled token = false → cycle'.total.failed = cycle.total.failed →
    cycle'.total.skippedMounts = cycle.total.skippedMounts →
    (first.steps (before ++ [.run id])).documents? s = some documents' →
      ∃ early path now listed, first.SweepsMount early before id path s now listed ∧ ∀ key,
        (listed.Dooms path now key → documents'.get? key = none) ∧
        (¬listed.Dooms path now key → documents'.get? key = listed.get? key)

theorem documents?_eq {c : Cache} {s : Nat} {documents : Documents} (h : c.documents? s = some documents) :
    ∃ store, c.stores[s]? = some store ∧ store.documents? = some documents := Option.bind_eq_some_iff.1 h

/-- A store is of the same kind and at the same place at all times. -/
theorem bare_of_steps {first : Cache} (hu : first.Unused) {events events' : List Event} {s : Nat}
    {store store' : Store} (hs : (first.steps events).stores[s]? = some store)
    (hs' : (first.steps events').stores[s]? = some store') :
    store'.bare = store.bare := by
  have hbare := (LocksSound.of_unused hu).bare_steps
  have heq := congrArg (·[s]?) ((hbare events).trans (hbare events').symm)
  simp only [List.getElem?_map, hs, hs', Option.map_some, Option.some.injEq] at heq
  exact heq.symm

/-- The keys that a listing dooms are those that the listed documents doom. -/
theorem TakesUp.dooms_iff {c : Cache} {id : JobId} {l : Inventory} {listed : Documents} (h : c.TakesUp id l)
    (hd : l.content.documents? = some listed) {key : String} :
    l.Dooms key ↔ listed.Dooms l.path l.now key := by
  have hentries : l.entries = listed.list l.path := by
    have hlisting := h.listing
    cases hcontent : l.content with
    | document =>
      rw [hcontent] at hd hlisting
      cases hd
      exact (Reply.listed.inj hlisting).symm
    | _ =>
      rw [hcontent] at hd
      cases hd
  rw [Documents.dooms_iff, ← hentries]
  rfl

theorem Within.sweepsMount {first : Cache} (hu : first.Unused) {early before events during : List Event}
    {id : JobId} {l : Inventory} {listed : Documents} (hw : first.Within early events id l)
    (hevents : before <+: events)
    (ht : (first.steps early).TakesUp id l) (hsince : before ++ [.run id] = early ++ .run id :: during)
    (hd : l.content.documents? = some listed) :
    first.SweepsMount early before id l.path l.store l.now listed where
  mount := by
    rw [← (LocksSound.of_unused hu).mounts_steps early]
    exact ht.mount
  taken := ⟨_, _, ht.stage⟩
  since := ⟨_, hsince⟩
  inside mid hearly hmid := hw.inside mid hearly (hmid.trans hevents)
  clock := ht.clock
  listed := by simp [documents?, ht.content, hd]

section Sweep

variable {first : Cache} (hu : first.Unused) {id : JobId} {job : Job} {before : List Event}
  (hj : (first.steps before).jobs[id]? = some job) (hr : job.request.Sweeps)

include hu hj hr

/-- The turn of a sweep changes no store, or it deletes a doomed key from one. -/
theorem deletes_turn {event : Event} (hm : event.Moves id) :
    (first.steps (before ++ [event])).stores = (first.steps before).stores ∨
      event = .run id ∧ ∃ early during l store key, before ++ [.run id] = early ++ .run id :: during ∧
        (first.steps early).TakesUp id l ∧ first.Within early (before ++ [.run id]) id l ∧ l.Dooms key ∧
        (first.steps before).stores[l.store]? = some store ∧ (first.steps (before ++ [.run id])).stores =
          (first.steps before).stores.set l.store (store.perform (.delete key)).2 := by
  have hmoved := ((LocksSound.of_unused hu).steps before).moved hj hm
  rw [← steps_snoc] at hmoved
  cases hmoved with
  | same heq => exact .inl (congrArg stores heq)
  | skip _ _ hstores => exact .inl hstores
  | turn he ht hstores hnew =>
    subst he
    have htouches := ht.touches
    cases htouches with
    | rest h => exact .inl (hstores.trans h)
    | @call s visit call store hc hs hd heq =>
      right
      have hsound := SweepSound.steps hu _ hnew hr
      generalize hstage : Stage.returned s visit .done = stage at hsound
      cases hsound with
      | away hnone =>
        rw [← hstage] at hnone
        cases hnone
      | queued => cases hstage
      | pausing => cases hstage
      | listed =>
        cases hstage
        cases hc
        exact absurd hd (Store.perform_list_ne_done _ _)
      | @clearing _ early during l store' hp hsplit htakes hw hcontent hclears =>
        cases hclears with
        | pausing => cases hstage
        | @returned passed entry mount _ hdeals =>
          cases hstage
          cases hc
          exact ⟨rfl, early, during, l, store, entry.key, hsplit, htakes, hw, hdeals.dooms, hs,
            hstores.trans heq⟩

end Sweep

/-- Two prefixes of a run, the longer of which goes on where the shorter one ends. -/
theorem prefix_of_since {early before during : List Event} {event event' : Event}
    (h : before ++ [event] = early ++ event' :: during) : early <+: before := by
  refine List.prefix_of_prefix_length_le (h ▸ List.prefix_append ..) (List.prefix_append before [event]) ?_
  have hlength := congrArg List.length h
  simp only [List.length_append, List.length_cons, List.length_nil] at hlength
  omega

section Documents

variable {first : Cache} {id : JobId} {l : Inventory}

/-- What the documents of a store keep of those that were listed. -/
theorem Within.kept_documents {early events mid : List Event} (hw : first.Within early events id l)
    (hearly : early <+: mid) (hmid : mid <+: events) {listed documents : Documents}
    (hlisted : l.content.documents? = some listed)
    (hd : (first.steps mid).documents? l.store = some documents) (key : String) :
    documents.get? key = listed.get? key ∨ documents.get? key = none ∧ l.Dooms key := by
  obtain ⟨store, hs, hdocuments⟩ := documents?_eq hd
  have hkept := hw.kept mid store hearly hmid hs key
  rw [Store.cell?_of_documents? hdocuments, Store.cell?_of_documents? hlisted] at hkept
  rcases hkept with hsame | ⟨hnone, hdooms⟩
  · exact .inl ((Option.map_inj_right fun _ _ => Cell.text.inj).1 hsame)
  · exact .inr ⟨Option.map_eq_none_iff.1 hnone, hdooms⟩

end Documents

/-- A turn of a sweep removes nothing but documents of doomed keys. -/
theorem removes_turn {first : Cache} (hu : first.Unused) {id : JobId} {job : Job} {before : List Event}
    {event : Event}
    (hj : (first.steps before).jobs[id]? = some job) (hr : job.request.Sweeps) (hm : event.Moves id) {s : Nat}
    {documents : Documents} (hd : (first.steps before).documents? s = some documents) :
    ∃ documents', (first.steps (before ++ [event])).documents? s = some documents' ∧ ∀ key,
      documents'.get? key = documents.get? key ∨ documents'.get? key = none ∧ event = .run id ∧
        ∃ early path now listed, first.SweepsMount early before id path s now listed ∧
          listed.get? key = documents.get? key ∧ listed.Dooms path now key := by
  rcases deletes_turn hu hj hr hm with
    hsame | ⟨rfl, early, during, l, store, key', hsince, htakes, hw, hdooms, hs, hstores⟩
  · exact ⟨documents, by rw [documents?, hsame]; exact hd, fun key => .inl rfl⟩
  · by_cases hne : s = l.store
    · subst hne
      obtain ⟨store', hs', hdocuments⟩ := documents?_eq hd
      obtain rfl : store = store' := Option.some.inj (hs.symm.trans hs')
      have hlt := (List.getElem?_eq_some_iff.1 hs).1
      have herase : (store.perform (.delete key')).2.documents? = some (documents.erase key') := by
        cases store with
        | document =>
          cases hdocuments
          rfl
        | _ => cases hdocuments
      obtain ⟨listed, hlisted⟩ := Store.documents?_of_bare hdocuments (bare_of_steps hu hs htakes.content)
      refine ⟨documents.erase key', ?_, fun key => ?_⟩
      · rw [documents?, hstores, List.getElem?_set_self hlt]
        exact herase
      · rw [KeyMap.get?_erase]
        split
        next heq =>
          subst heq
          have hearly := prefix_of_since hsince
          have hbefore : before <+: before ++ [.run id] := List.prefix_append ..
          -- A document that is there now was there at the listing, for the store has got none since.
          rcases hw.kept_documents hearly hbefore hlisted hd key with hkept | ⟨hnone, -⟩
          · refine .inr ⟨rfl, rfl, early, l.path, l.now, listed, ?_, hkept.symm,
              (htakes.dooms_iff hlisted).1 hdooms⟩
            exact hw.sweepsMount hu hbefore htakes hsince hlisted
          · exact .inl hnone.symm
        next => exact .inl rfl
    · refine ⟨documents, ?_, fun key => .inl rfl⟩
      rw [documents?, hstores, List.getElem?_set_ne (Ne.symm hne)]
      exact hd

/-- A sweep that leaves a mount for the next one has taken up the listing of the mount, and as long as no
deletion has failed it has dealt with all that was doomed. -/
theorem SweepSound.leaves {first : Cache} {before : List Event} {id : JobId} {s : Nat} {visit : Visit}
    {reply : Reply} {cycle cycle' : SweepCycle}
    {store : Store} (h : first.SweepSound before id (.returned s visit reply))
    (hmounts : (first.steps before).mounts = first.mounts)
    (hstage : (first.steps before).stage? id = some (.returned s visit reply))
    (hs : (first.steps before).stores[s]? = some store)
    (hk : (Stage.returned s visit reply).sweeping? = some (s, cycle))
    (hnext : visit.next (first.steps before).clock false reply = .move cycle')
    (hfailed : cycle'.total.failed = cycle.total.failed)
    (hskipped : cycle'.total.skippedMounts = cycle.total.skippedMounts) :
    ∃ early during l, before ++ [.run id] = early ++ .run id :: during ∧ (first.steps early).TakesUp id l ∧
      first.Within early before id l ∧ l.store = s ∧ l.Gone l.entries store := by
  cases h with
  | away hnone => cases hnone
  | @listed _ path _ _ hp hl =>
    cases hk
    cases reply with
    | listed entries =>
      cases hclock : (first.steps before).clock.read? with
      | none => simp [Visit.next, Visit.listOn, hclock] at hnext
      | some now =>
        have htakes := SweepSound.takesUp hp hl hmounts hstage hs hclock
        rcases htakes.next false with ⟨cycle'', heq, hgone⟩ | ⟨passed, entry, mount, heq, -⟩
        · rw [hnext] at heq
          cases heq
          exact ⟨before, [], _, rfl, htakes, htakes.within, rfl, hgone rfl hfailed⟩
        · rw [hnext] at heq
          cases heq
    | _ =>
      cases hnext
      simp [SweepCycle.skip, SweepReport.merge] at hskipped
  | @clearing _ early during l store' hp hsplit htakes hw hcontent hclears =>
    obtain rfl : s = l.store := by cases hclears; rfl
    obtain rfl : cycle = l.cycle := by cases hclears; cases hk; rfl
    obtain rfl : store = store' := Option.some.inj (hs.symm.trans hcontent)
    rcases hclears.next (first.steps before).clock false with
      ⟨cycle'', heq, hgone⟩ | ⟨passed, entry, mount, heq, -⟩
    · rw [hnext] at heq
      cases heq
      exact ⟨early, during ++ [.run id], l, by simp [hsplit], htakes, hw, rfl, hgone rfl hfailed⟩
    · rw [hnext] at heq
      cases heq

/-- A sweep that is not cancelled goes on without a lock on the reply to a call, and no store changes. -/
theorem moves_turn {first : Cache} (hu : first.Unused) {before : List Event} {id : JobId} {job : Job}
    {s : Nat}
    {cycle cycle' : SweepCycle} (hj : (first.steps before).jobs[id]? = some job)
    (hk : job.stage.sweeping? = some (s, cycle))
    (hafter : (first.steps (before ++ [.run id])).stage? id = some (.between cycle'))
    (hc : (first.steps before).isCancelled job.token = false) :
    (∃ visit reply, job.stage = .returned s visit reply ∧
      visit.next (first.steps before).clock false reply = .move cycle') ∧
      (first.steps (before ++ [.run id])).stores = (first.steps before).stores := by
  have hmoved := ((LocksSound.of_unused hu).steps before).moved hj (show (Event.run id).Moves id from rfl)
  rw [← steps_snoc] at hmoved
  cases hmoved with
  | same heq =>
    rw [heq, stage?_eq hj] at hafter
    rw [Option.some.inj hafter] at hk
    cases hk
  | skip he => cases he
  | @turn new shelves _ ht hstores hnew =>
    obtain rfl : new = .between cycle' := by
      rw [stage?_eq hnew] at hafter
      exact Option.some.inj hafter
    exact ⟨ht.replied hk hc, hstores.trans (ht.stores fun _ _ => by simp)⟩

/-- Whatever documents a collection has, a sweep removes none but those whose keys are doomed by the documents
that it has listed, and it removes all of these if it is not cancelled and no deletion fails. -/
theorem cleans {first : Cache} (hu : first.Unused) (events : List Event) {id : JobId} {job : Job}
    (hj : (first.steps events).jobs[id]? = some job) (hr : job.request.Sweeps) :
    first.Cleans events id job.token where
  removes before event after hsplit hm s documents hd := by
    have hlocks := (LocksSound.of_unused hu).steps before
    cases hbefore : (first.steps before).jobs[id]? with
    | none =>
      refine ⟨documents, ?_, fun key => .inl rfl⟩
      rw [steps_snoc, step_absent hbefore hm]
      exact hd
    | some old =>
      rw [hsplit, steps_append] at hj
      have hold : old.request.Sweeps := (hlocks.job_before hbefore hj).1 ▸ hr
      obtain ⟨documents', hd', hkeys⟩ := removes_turn hu hbefore hold hm hd
      refine ⟨documents', hd', fun key => (hkeys key).imp_right ?_⟩
      rintro ⟨hnone, hevent, early, path, now, listed, hsweeps, hsame, hdooms⟩
      refine ⟨hnone, hevent, early, path, now, listed, hsweeps, hsame, hdooms, fun hhonest => ?_⟩
      rw [← hsame]
      exact hhonest.expired hdooms
  completes before after s stage cycle cycle' documents' hsplit hstage hk hafter hc hfailed hskipped hd' := by
    have hlocks := LocksSound.of_unused hu
    obtain ⟨old, hbefore, rfl⟩ := Option.map_eq_some_iff.1 hstage
    rw [hsplit, steps_append] at hj
    obtain ⟨hrequest, htoken⟩ := (hlocks.steps before).job_before hbefore hj
    rw [← htoken] at hc
    obtain ⟨⟨visit, reply, hold, hnext⟩, hstores⟩ := moves_turn hu hbefore hk hafter hc
    rw [documents?, hstores] at hd'
    obtain ⟨store, hs, hdocuments⟩ := documents?_eq hd'
    have hsound := SweepSound.steps hu _ hbefore (hrequest ▸ hr)
    rw [hold] at hsound hk hstage
    obtain ⟨early, during, l, hsince, htakes, hw, rfl, hgone⟩ :=
      hsound.leaves (hlocks.mounts_steps before) hstage hs hk hnext hfailed hskipped
    obtain ⟨listed, hlisted⟩ := Store.documents?_of_bare hdocuments (bare_of_steps hu hs htakes.content)
    refine ⟨early, l.path, l.now, listed, hw.sweepsMount hu List.prefix_rfl htakes hsince hlisted,
      fun key => ?_⟩
    rw [← htakes.dooms_iff hlisted]
    constructor
    · rintro ⟨entry, hentry, hdoomed, rfl⟩
      have hcell := hgone entry hentry hdoomed
      rw [Store.cell?_of_documents? hdocuments] at hcell
      exact Option.map_eq_none_iff.1 hcell
    · intro hnot
      rcases hw.kept_documents (prefix_of_since hsince) List.prefix_rfl hlisted hd' key with
        hsame | ⟨-, hdooms⟩
      · exact hsame
      · exact absurd hdooms hnot

/-- A sweep removes no document but those that are expired themselves. -/
def RemovesExpired (first : Cache) (events : List Event) (id : JobId) : Prop :=
  ∀ before event after, events = before ++ event :: after → event.Moves id →
    ∀ s documents documents' key text now, (first.steps before).documents? s = some documents →
      (first.steps (before ++ [event])).documents? s = some documents' → documents.get? key = some text →
      documents'.get? key = none → (first.steps before).clock.read? = some now →
        ∃ entry, KeyRecord.decode? text = some entry ∧ entry.record.isValidAt now = false

/-- An expired document that names another key than its own has the valid document there removed in its place,
and an expired document whose key begins with a slash is not listed at all. -/
theorem removes_valid :
    let expired : Record := ⟨[], { createdAt := default, notValidAfter := some default }⟩
    let valid : Record := ⟨[1], { createdAt := default }⟩
    let documents : Documents := ((KeyMap.empty.insert "m/a" (KeyRecord.encode ⟨"m/b", expired⟩)).insert "m/b"
      (KeyRecord.encode ⟨"m/b", valid⟩)).insert "/m/c" (KeyRecord.encode ⟨"/m/c", expired⟩)
    let first := fresh ⟨KeyMap.empty.insert "m" 0⟩ [.document [] "c" .empty documents] 0 1000
      (.ofInstant default)
    let events : List Event := [.start .sweep .never, .run 0, .run 0, .run 0, .run 0, .run 0]
    first.Unused ∧ ¬first.RemovesExpired events 0 ∧ valid.isValidAt default = true ∧
      MountTable.owns "m" "m/a" = true ∧ MountTable.owns "m" "/m/c" = true ∧
      expired.isValidAt default = false ∧
      (first.steps events).answer? 0 = some (.swept { deleted := 1, valid := 1 }) ∧
      (first.steps events).documents? 0 = some (documents.erase "m/b") := by
  intro expired valid documents first events
  refine ⟨unused_fresh .., fun h => ?_, by decide, by decide +kernel, by decide +kernel, by decide,
    by decide +kernel, by decide +kernel⟩
  obtain ⟨entry, hdecode, hexpired⟩ := h [.start .sweep .never, .run 0, .run 0] (.run 0)
    [.run 0, .run 0] rfl rfl 0 documents (documents.erase "m/b") "m/b"
      (KeyRecord.encode ⟨"m/b", valid⟩) default (by decide +kernel)
    (by decide +kernel) (by decide +kernel) (by decide +kernel) (by decide +kernel)
  rw [KeyRecord.decode?_encode] at hdecode
  cases hdecode
  cases hexpired

/-- One document of a collection is undecodable, one is expired and one is not. -/
theorem cleans_expired :
    let expired : Record := ⟨[], { createdAt := default, notValidAfter := some default }⟩
    let valid : Record := ⟨[1], { createdAt := default }⟩
    let documents : Documents := ((Documents.put .empty ⟨"m/a", expired⟩).put ⟨"m/b", valid⟩).insert "m/c" [0]
    let first := fresh ⟨KeyMap.empty.insert "m" 0⟩ [.document [] "c" .empty documents] 0 1000
      (.ofInstant default)
    let events : List Event := [.start .sweep .never, .run 0, .run 0, .run 0, .run 0, .run 0]
    let job : Job := { request := .sweep, stage := .finished (.swept { deleted := 1, valid := 1 }) }
    first.Unused ∧ (first.steps events).jobs[0]? = some job ∧ job.request.Sweeps ∧
      first.Cleans events 0 .never ∧ (first.steps events).documents? 0 = some (documents.erase "m/a") := by
  intro expired valid documents first events job
  have hu : first.Unused := unused_fresh ..
  have hj : (first.steps events).jobs[0]? = some job := by decide +kernel
  have hr : job.request.Sweeps := .inl rfl
  exact ⟨hu, hj, hr, cleans hu events hj hr, by decide +kernel⟩

end Cache

end RoutedCache

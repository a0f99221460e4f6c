import RoutedCache.Proofs.Cache.Inventory
import RoutedCache.Proofs.Cache.Tracking

/-!
# What the passes of a sweep have done to the stores

A pass takes up what the store of its mount shows at that time, and it deletes doomed entries of it, one turn after
the other (`MountPass.Shows`).  As long as it is in the mount, no other job changes the store, so that the store has
what it had at the listing but for what the pass has removed (`Store.LeftOf`).  The log of a sweep has all of its
deletions: the turns of a sweep do nothing else to the stores (`Cache.works`).
-/

namespace RoutedCache

/-- The turn with the number, the one after `before`, is a turn of the job. -/
structure TurnOf (events : List Event) (id : JobId) (turn : Nat) (before : List Event) : Prop where
  number : before.length = turn
  here : before ++ [.run id] <+: events

namespace TurnOf

variable {events : List Event} {id j : JobId} {turn : Nat} {before before' : List Event}

theorem last (events : List Event) (id : JobId) : TurnOf (events ++ [.run id]) id events.length events :=
  ⟨rfl, List.prefix_rfl⟩

theorem snoc (h : TurnOf events id turn before) (event : Event) : TurnOf (events ++ [event]) id turn before :=
  ⟨h.number, h.here.trans (List.prefix_append ..)⟩

/-- A turn is a turn of one job. -/
theorem unique (h : TurnOf events id turn before) (h' : TurnOf events j turn before') :
    before = before' ∧ id = j := by
  have hlength : (before ++ [Event.run id]).length = (before' ++ [Event.run j]).length := by
    simp [h.number, h'.number]
  have heq := (List.prefix_of_prefix_length_le h.here h'.here (Nat.le_of_eq hlength)).eq_of_length hlength
  obtain ⟨rfl, hlast⟩ := List.append_inj' heq rfl
  cases hlast
  exact ⟨rfl, rfl⟩

theorem lt (h : TurnOf events id turn before) : turn < events.length := by
  have hle := h.here.length_le
  rw [List.length_append, h.number] at hle
  exact hle

end TurnOf

/-! ### Deletions -/

/-- The deletions have removed what was under the key. -/
def removes (deletions : List Deletion) (key : String) : Bool :=
  deletions.any fun deletion => !deletion.refused && deletion.key = key

theorem removes_snoc (deletions : List Deletion) (deletion : Deletion) (key : String) :
    removes (deletions ++ [deletion]) key = (removes deletions key || !deletion.refused && deletion.key = key) := by
  simp [removes]

/-- The store has what was there before, but for what the deletions have removed. -/
def Store.LeftOf (content : Store) (deletions : List Deletion) (store : Store) : Prop :=
  ∀ key, store.cell? key = if removes deletions key then none else content.cell? key

/-- What a deletion does to the stores. -/
inductive Erases (stores : List Store) (s : Nat) (key : String) : Reply → List Store → Prop
  | done {store} (hs : stores[s]? = some store) (hd : (store.perform (.delete key)).1 = .done)
      (hc : ∀ key', (store.perform (.delete key)).2.cell? key' = if key' = key then none else store.cell? key') :
      Erases stores s key .done (stores.set s (store.perform (.delete key)).2)
  | failed {fault store} (hs : stores[s]? = some store) : Erases stores s key (.failed fault) stores

theorem Erases.acknowledged {stores stores' : List Store} {s : Nat} {deletion : Deletion}
    (h : Erases stores s deletion.key deletion.reply stores') (hr : deletion.refused = false) :
    ∃ store, stores[s]? = some store ∧ (store.perform (.delete deletion.key)).1 = .done ∧
      (∀ key, (store.perform (.delete deletion.key)).2.cell? key =
        if key = deletion.key then none else store.cell? key) ∧
      stores' = stores.set s (store.perform (.delete deletion.key)).2 := by
  obtain ⟨turn, key, reply⟩ := deletion
  cases h with
  | done hs hd hc => exact ⟨_, hs, hd, hc, rfl⟩
  | failed => cases hr

theorem Erases.refused {stores stores' : List Store} {s : Nat} {deletion : Deletion}
    (h : Erases stores s deletion.key deletion.reply stores') (hr : deletion.refused = true) : stores' = stores := by
  obtain ⟨turn, key, reply⟩ := deletion
  cases h with
  | done => cases hr
  | failed => rfl

/-- The store has what is left of the content after one more deletion. -/
theorem Store.LeftOf.erase {content store : Store} {deletions : List Deletion} (h : content.LeftOf deletions store)
    {stores stores' : List Store} {s : Nat} {key : String} {reply : Reply} (hs : stores[s]? = some store)
    (he : Erases stores s key reply stores') (turn : Nat) :
    ∃ store', stores'[s]? = some store' ∧ content.LeftOf (deletions ++ [⟨turn, key, reply⟩]) store' := by
  cases he with
  | @done other hother _ hc =>
    cases hs.symm.trans hother
    refine ⟨_, List.getElem?_set_self (List.getElem?_eq_some_iff.1 hs).1, fun key' => ?_⟩
    rw [hc, h, removes_snoc]
    by_cases heq : key' = key
    · simp [heq, Deletion.refused]
    · simp [heq, Ne.symm heq, Deletion.refused]
  | failed =>
    refine ⟨store, hs, fun key' => ?_⟩
    rw [h, removes_snoc]
    simp [Deletion.refused]

section Transition

variable {c : Cache} {id : JobId} {job : Job} {old new : Stage} {shelves : List Shelf}

/-- A turn that ends with the reply to a deletion has made the deletion. -/
theorem Transition.erases {s : Nat} {key : String} {mount : MountSweep} {cycle : SweepCycle} {reply : Reply}
    (ht : Transition c id job old (.returned s (.evict key mount cycle) reply) shelves) :
    Erases c.stores s key reply (storesOn shelves) := by
  obtain ⟨asked, call, hfor, hcall, rfl, rfl⟩ := ht.made
  obtain ⟨shelf, hs, hstore⟩ := Cache.shelf_of_shelfFor? hfor
  cases hcall
  have hcontent := Cache.store_of_shelf hs
  rcases asked.perform_delete key with ⟨hdone, hcells⟩ | ⟨fault, hfault, hsame⟩
  · obtain ⟨hd, hperform⟩ := Shelf.perform_done hdone
    rw [hdone, storesOn_set_perform, hperform, hstore]
    rw [hstore] at hd
    refine .done hcontent hd fun key' => ?_
    rw [← hstore, ← hperform, hcells]
  · rw [hfault, storesOn_set hs (hsame.trans hstore)]
    exact .failed hcontent

end Transition

/-! ### What a turn of a sweep does -/

/-- A sweep that is in no mount has had no call acknowledged in its turn. -/
theorem Tracks.unacknowledged {table : List (String × Nat)} {request : Request} {cancelled : Bool} {stage : Stage}
    {rounds : List Round} (h : Tracks table request cancelled stage rounds) (hr : request.Sweeps)
    (hk : stage.sweeping? = none) : stage.Unacknowledged := by
  intro s visit heq
  subst heq
  cases h with
  | away hr' => exact hr' hr
  | resting _ hstage => rcases hstage with ⟨due, heq⟩ | heq <;> cases heq
  | within _ hk' => cases hk.symm.trans hk'

namespace MountPass

/-- What a turn does to a pass and to the stores: it makes a deletion, or it leaves the stores and the deletions as
they are. -/
inductive Acts (stores : List Store) (turn : Nat) (pass pass' : MountPass) : Stage → List Store → Prop
  | deletes {key mount cycle reply stores'} (hd : pass'.deletions = pass.deletions ++ [⟨turn, key, reply⟩])
      (he : Erases stores pass.store key reply stores') :
      Acts stores turn pass pass' (.returned pass.store (.evict key mount cycle) reply) stores'
  | rests {new} (hd : pass'.deletions = pass.deletions) : Acts stores turn pass pass' new stores

section Turned

variable (turn : Nat) (now : Option Instant) (before : SweepReport) (fate : Fate) (old new : Stage)
  (pass : MountPass)

@[simp] theorem deletions_takenUp : (pass.takenUp turn now old).deletions = pass.deletions := by
  unfold takenUp
  split <;> rfl

@[simp] theorem deletions_left : (pass.left before fate new).deletions = pass.deletions := by
  unfold left
  split <;> rfl

@[simp] theorem listing_deleted : (pass.deleted turn new).listing = pass.listing := by
  unfold deleted
  split <;> rfl

@[simp] theorem listing_left : (pass.left before fate new).listing = pass.listing := by
  unfold left
  split <;> rfl

end Turned

variable {turn : Nat} {now : Option Instant} {before : SweepReport} {old new : Stage} {pass : MountPass} {c : Cache}
  {id : JobId} {job : Job} {shelves : List Shelf} {cycle : SweepCycle} {cancelled : Bool}

theorem Acts.of_takenUp {stores stores' : List Store} {pass' : MountPass}
    (h : Acts stores turn pass pass' new stores') :
    Acts stores turn (pass.takenUp turn now old) pass' new stores' := by
  have hdeletions : (pass.takenUp turn now old).deletions = pass.deletions := deletions_takenUp ..
  have hstore : (pass.takenUp turn now old).store = pass.store := congrArg Prod.snd (place_takenUp ..)
  cases h with
  | deletes hd he =>
    rw [← hstore] at he ⊢
    exact .deletes (hdeletions ▸ hd) he
  | rests hd => exact .rests (hdeletions ▸ hd)

theorem Goes.acts (hg : (pass.turned turn now before old new).Goes cycle cancelled new)
    (ht : Transition c id job old new shelves) :
    Acts c.stores turn pass (pass.turned turn now before old new) new (storesOn shelves) := by
  have hplace : (pass.turned turn now before old new).place = pass.place := place_turned ..
  have hturned : (pass.turned turn now before old new).deletions = (pass.deleted turn new).deletions := by
    rw [turned, deletions_left]
    unfold deleted
    split <;> simp
  have hrests (hu : new.Unacknowledged) (hd : pass.deleted turn new = pass) :
      Acts c.stores turn pass (pass.turned turn now before old new) new (storesOn shelves) := by
    rw [ht.stores hu]
    rw [hd] at hturned
    exact .rests hturned
  generalize pass.turned turn now before old new = pass' at *
  cases hg with
  | within hk h =>
    cases h with
    | queued => exact hrests (by simp [Stage.Unacknowledged]) rfl
    | pausing => exact hrests (by simp [Stage.Unacknowledged]) rfl
    | @listed path store reply =>
      refine hrests ?_ rfl
      rintro s visit heq
      cases heq
      obtain ⟨asked, call, -, hcall, hreply, -⟩ := ht.made
      cases hcall
      exact absurd (Shelf.perform_done hreply.symm).1 (Store.perform_list_ne_done _ _)
    | deleting => exact hrests (by simp [Stage.Unacknowledged]) rfl
    | deleted =>
      obtain ⟨-, hstore⟩ := Prod.mk.inj hplace
      rw [hstore] at ht ⊢
      exact .deletes hturned ht.erases
  | left => exact hrests (by simp [Stage.Unacknowledged]) rfl
  | broken => exact hrests (by simp [Stage.Unacknowledged]) rfl

end MountPass

/-! ### What a pass has done -/

namespace MountPass

/-- The listing of a pass is what its store showed, and each of its deletions was made to what the earlier ones had
left. -/
structure Shows (first : Cache) (events : List Event) (id : JobId) (pass : MountPass) (listing : Showing)
    (content : Store) : Prop where
  taken : ∃ before, TurnOf events id listing.turn before ∧ (first.steps before).clock.read? = some listing.now ∧
    (first.steps before).stores[pass.store]? = some content
  listed : (content.perform (.list pass.path)).1 = .listed listing.entries
  keys : pass.deletions.map (·.key) <+:
    (listing.entries.filter (·.isDoomed pass.path listing.now)).map (·.key)
  deleted : ∀ earlier deletion later, pass.deletions = earlier ++ deletion :: later →
    ∃ before store, TurnOf events id deletion.turn before ∧
      (first.steps before).stores[pass.store]? = some store ∧ content.LeftOf earlier store ∧
      Erases (first.steps before).stores pass.store deletion.key deletion.reply
        (first.steps (before ++ [.run id])).stores

/-- What a turn does to the listing of a pass: nothing, or the pass takes up what its store shows. -/
inductive Takes (c : Cache) (turn : Nat) (pass pass' : MountPass) : Prop
  | same (hl : pass'.listing = pass.listing)
  | taken {listing store} (hn : pass.deletions = []) (hl : pass'.listing = some listing) (ht : listing.turn = turn)
      (hc : c.clock.read? = some listing.now) (hs : c.stores[pass.store]? = some store)
      (hshown : (store.perform (.list pass.path)).1 = .listed listing.entries)

/-- What is known of every pass of a run. -/
inductive Sound (first : Cache) (events : List Event) (id : JobId) (pass : MountPass) : Prop
  | unlisted (hl : pass.listing = none) (hd : pass.deletions = [])
  | listed {listing content} (hl : pass.listing = some listing) (hs : pass.Shows first events id listing content)

/-- What is known of a pass while its sweep is in the mount, given the stores as they are. -/
inductive Current (first : Cache) (events : List Event) (id : JobId) (stores : List Store) (pass : MountPass) : Prop
  | unlisted (hl : pass.listing = none) (hd : pass.deletions = [])
  | listed {listing content store} (hl : pass.listing = some listing)
      (hs : pass.Shows first events id listing content) (hc : stores[pass.store]? = some store)
      (hk : content.LeftOf pass.deletions store)

variable {first : Cache} {events : List Event} {id : JobId} {stores stores' : List Store} {pass pass' : MountPass}
  {listing : Showing} {content : Store}

namespace Shows

theorem snoc (h : pass.Shows first events id listing content) (event : Event) :
    pass.Shows first (events ++ [event]) id listing content where
  taken := by
    obtain ⟨before, hturn, htaken⟩ := h.taken
    exact ⟨before, hturn.snoc event, htaken⟩
  listed := h.listed
  keys := h.keys
  deleted earlier deletion later heq := by
    obtain ⟨before, store, hturn, hdeleted⟩ := h.deleted earlier deletion later heq
    exact ⟨before, store, hturn.snoc event, hdeleted⟩

/-- The entry that a deletion is about. -/
theorem entry (h : pass.Shows first events id listing content) {deletion : Deletion}
    (hd : deletion ∈ pass.deletions) :
    ∃ entry ∈ listing.entries, entry.isDoomed pass.path listing.now = true ∧ entry.key = deletion.key := by
  obtain ⟨entry, hentry, hkey⟩ := List.mem_map.1 (h.keys.subset (List.mem_map_of_mem hd))
  obtain ⟨hentry, hdoomed⟩ := List.mem_filter.1 hentry
  exact ⟨entry, hentry, hdoomed, hkey⟩

/-- What a pass has done is known by its deletions. -/
theorem congr (h : pass.Shows first events id listing content) (hp : pass'.place = pass.place)
    (hd : pass'.deletions = pass.deletions) : pass'.Shows first events id listing content := by
  obtain ⟨hpath, hstore⟩ := Prod.mk.inj hp
  constructor
  · rw [hstore]
    exact h.taken
  · rw [hpath]
    exact h.listed
  · rw [hpath, hd]
    exact h.keys
  · rw [hstore, hd]
    exact h.deleted

/-- The pass makes one more deletion. -/
theorem delete (h : pass.Shows first (events ++ [.run id]) id listing content) (hp : pass'.place = pass.place)
    {store : Store} (hs : (first.steps events).stores[pass.store]? = some store)
    (hk : content.LeftOf pass.deletions store) {key : String} {reply : Reply}
    (hd : pass'.deletions = pass.deletions ++ [⟨events.length, key, reply⟩])
    (he : Erases (first.steps events).stores pass.store key reply (first.steps (events ++ [.run id])).stores)
    (hkeys : pass'.deletions.map (·.key) <+:
      (listing.entries.filter (·.isDoomed pass'.path listing.now)).map (·.key)) :
    pass'.Shows first (events ++ [.run id]) id listing content := by
  obtain ⟨hpath, hstore⟩ := Prod.mk.inj hp
  constructor
  · rw [hstore]
    exact h.taken
  · rw [hpath]
    exact h.listed
  · exact hkeys
  · intro earlier deletion later heq
    rw [hstore]
    rw [hd] at heq
    rcases List.append_eq_append_iff.1 heq with ⟨later', rfl, hlast⟩ | ⟨later', hdeletions, hlater⟩
    · cases later' with
      | nil =>
        cases hlast
        exact ⟨events, store, .last events id, hs, by simpa using hk, he⟩
      | cons other rest => simp at hlast
    · cases later' with
      | nil =>
        cases hlater
        rw [List.append_nil] at hdeletions
        exact ⟨events, store, .last events id, hs, hdeletions ▸ hk, he⟩
      | cons other rest =>
        cases hlater
        exact h.deleted earlier deletion rest hdeletions

end Shows

namespace Sound

theorem snoc (h : pass.Sound first events id) (event : Event) : pass.Sound first (events ++ [event]) id := by
  cases h with
  | unlisted hl hd => exact .unlisted hl hd
  | listed hl hs => exact .listed hl (hs.snoc event)

/-- A pass that has deleted something was shown its mount. -/
theorem shows (h : pass.Sound first events id) {deletion : Deletion} (hd : deletion ∈ pass.deletions) :
    ∃ listing content, pass.listing = some listing ∧ pass.Shows first events id listing content := by
  cases h with
  | unlisted _ hnone =>
    rw [hnone] at hd
    cases hd
  | listed hl hs => exact ⟨_, _, hl, hs⟩

theorem congr (h : pass.Sound first events id) (hp : pass'.place = pass.place)
    (hl : pass'.listing = pass.listing) (hd : pass'.deletions = pass.deletions) : pass'.Sound first events id := by
  cases h with
  | unlisted hl' hd' => exact .unlisted (hl.trans hl') (hd.trans hd')
  | listed hl' hs => exact .listed (hl.trans hl') (hs.congr hp hd)

end Sound

/-- A sweep that has taken up the listing of a mount is at work in the store. -/
theorem At.inside {cycle : SweepCycle} {stage : Stage} (h : pass.At cycle stage)
    (hl : pass.listing = some listing) : stage.inside? = some pass.store := by
  cases h with
  | deleting => rfl
  | deleted => rfl
  | _ => cases hl

/-- The keys of the deletions are those of the first doomed entries. -/
theorem At.keys {cycle : SweepCycle} {stage : Stage} (h : pass.At cycle stage)
    (hl : pass.listing = some listing) : pass.deletions.map (·.key) <+:
      (listing.entries.filter (·.isDoomed pass.path listing.now)).map (·.key) := by
  have hreports {passed rest : List KeyRecord} {report : SweepReport} (hr : pass.Reports listing passed report)
      (he : listing.entries = passed ++ rest) : pass.deletions.map (·.key) <+:
        (listing.entries.filter (·.isDoomed pass.path listing.now)).map (·.key) := by
    rw [hr.keys, he, List.filter_append, List.map_append]
    exact List.prefix_append ..
  cases h with
  | deleting _ hl' he _ hr =>
    cases hl'.symm.trans hl
    exact hreports hr he
  | @deleted _ _ passed entry rest _ _ _ hl' he _ hr =>
    cases hl'.symm.trans hl
    exact hreports hr (he.trans (List.append_cons passed entry rest))
  | _ => cases hl

namespace Current

theorem sound (h : pass.Current first events id stores) : pass.Sound first events id := by
  cases h with
  | unlisted hl hd => exact .unlisted hl hd
  | listed hl hs => exact .listed hl hs

/-- A pass stands where it stood after a turn that leaves its store alone. -/
theorem snoc (h : pass.Current first events id stores) (event : Event)
    (hs : ∀ listing, pass.listing = some listing → stores'[pass.store]? = stores[pass.store]?) :
    pass.Current first (events ++ [event]) id stores' := by
  cases h with
  | unlisted hl hd => exact .unlisted hl hd
  | listed hl hshows hc hk => exact .listed hl (hshows.snoc event) ((hs _ hl).trans hc) hk

/-- A pass that has been taken on in a turn. -/
theorem acts {new : Stage} {cycle : SweepCycle} {cancelled : Bool}
    (h : pass.Current first (events ++ [.run id]) id (first.steps events).stores)
    (hp : pass'.place = pass.place) (hl : pass'.listing = pass.listing) (hg : pass'.Goes cycle cancelled new)
    (ha : Acts (first.steps events).stores events.length pass pass' new (first.steps (events ++ [.run id])).stores) :
    pass'.Current first (events ++ [.run id]) id (first.steps (events ++ [.run id])).stores := by
  obtain ⟨hpath, hstore⟩ := Prod.mk.inj hp
  generalize hstores : (first.steps (events ++ [.run id])).stores = stores' at ha ⊢
  cases ha with
  | @deletes key mount cycle' reply _ hd he =>
    generalize hnew : Stage.returned pass.store (.evict key mount cycle') reply = new at hg
    have hat : pass'.At cycle new := by
      cases hg with
      | within _ hat => exact hat
      | left => cases hnew
      | broken => cases hnew
    cases h with
    | unlisted hl' =>
      have hnone := hl.trans hl'
      cases hat with
      | deleted _ hl'' => cases hnone.symm.trans hl''
      | _ => cases hnew
    | @listed listing content store hl' hs hc hk =>
      have hlisting := hl.trans hl'
      rw [← hstores] at he ⊢
      obtain ⟨store', hc', hk'⟩ := hk.erase hc he events.length
      rw [← hstore] at hc'
      rw [← hd] at hk'
      exact .listed hlisting (hs.delete hp hc hk hd he (hat.keys hlisting)) hc' hk'
  | rests hd =>
    cases h with
    | unlisted hl' hd' => exact .unlisted (hl.trans hl') (hd.trans hd')
    | listed hl' hs hc hk =>
      refine .listed (hl.trans hl') (hs.congr hp hd) ?_ (hd ▸ hk)
      rw [hstore]
      exact hc

end Current

end MountPass

namespace Cache

variable {first : Cache} {events : List Event} {id : JobId} {job : Job} {pass : MountPass} {rounds : List Round}

/-- A listing that a sweep is about to take up is what the store shows. -/
theorem SweepSound.listing {s : Nat} {path : String} {cycle : SweepCycle} {entries : List KeyRecord} {store : Store}
    (h : first.SweepSound events id (.returned s (.list path cycle) (.listed entries)))
    (hs : (first.steps events).stores[s]? = some store) : (store.perform (.list path)).1 = .listed entries := by
  cases h with
  | away hnone => cases hnone
  | listed _ hl => exact hl entries store rfl hs
  | clearing _ _ _ _ _ h => cases h

/-- A sweep that has been shown the entries of a mount takes them up in its next turn. -/
private theorem takes {old : Stage} {cycle : SweepCycle} (hs : first.SweepSound events id old)
    (hin : ∀ s, old.inside? = some s → ∃ store, (first.steps events).stores[s]? = some store)
    (hp : pass.At cycle old) : MountPass.Takes (first.steps events) events.length pass
      (pass.takenUp events.length (first.steps events).clock.read? old) := by
  cases hp with
  | @listed path s reply =>
    cases reply with
    | listed entries =>
      cases hclock : (first.steps events).clock.read? with
      | none => exact .same rfl
      | some now =>
        obtain ⟨store, hstore⟩ := hin s rfl
        exact .taken rfl rfl rfl hclock hstore (hs.listing hstore)
    | _ => exact .same rfl
  | _ => exact .same rfl

/-- The pass before the deletions of a turn, which may have taken up its listing. -/
private theorem taken {pass' : MountPass} (ht : MountPass.Takes (first.steps events) events.length pass pass')
    (hp : pass'.place = pass.place) (hd : pass'.deletions = pass.deletions)
    (h : pass.Current first events id (first.steps events).stores) :
    pass'.Current first (events ++ [.run id]) id (first.steps events).stores := by
  obtain ⟨-, hstore⟩ := Prod.mk.inj hp
  cases ht with
  | same hl =>
    cases h with
    | unlisted hl' hd' => exact .unlisted (hl.trans hl') (hd.trans hd')
    | listed hl' hshows hc hk =>
      exact .listed (hl.trans hl') ((hshows.snoc _).congr hp hd) (hstore ▸ hc) (hd ▸ hk)
  | @taken listing store hnone hl hnumber hclock hs hshown =>
    have hempty := hd.trans hnone
    have hshows : pass'.Shows first (events ++ [.run id]) id listing store := by
      refine ⟨⟨events, hnumber ▸ .last events id, hclock, hstore ▸ hs⟩, ?_, ?_, ?_⟩
      · obtain ⟨hpath, -⟩ := Prod.mk.inj hp
        rw [hpath]
        exact hshown
      · rw [hempty]
        exact List.nil_prefix
      · intro earlier deletion later heq
        rw [hempty] at heq
        simp at heq
    refine .listed hl hshows (hstore ▸ hs) fun key => ?_
    rw [hempty]
    rfl

/-- The log of a sweep is backed by what has happened to the stores. -/
structure Backed (first : Cache) (events : List Event) (id : JobId) (stage : Stage) (rounds : List Round) :
    Prop where
  sound : ∀ round ∈ rounds, ∀ pass ∈ round.passes, pass.Sound first events id
  current : ∀ round older pass passes, rounds = round :: older → round.passes = pass :: passes →
    stage.sweeping? ≠ none → pass.Current first events id (first.steps events).stores

namespace Backed

private theorem empty {stage : Stage} : first.Backed events id stage [] where
  sound := List.forall_mem_nil _
  current round older pass passes heq := by cases heq

/-- A log is backed as long as its job is outside of the mounts. -/
private theorem outside {stage : Stage} {rounds' : List Round} (h : first.Backed events id stage rounds)
    (event : Event) {new : Stage} (hn : new.sweeping? = none)
    (hr : ∀ round' ∈ rounds', ∀ pass ∈ round'.passes, ∃ round ∈ rounds, pass ∈ round.passes) :
    first.Backed (events ++ [event]) id new rounds' where
  sound round' hround' pass hpass := by
    obtain ⟨round, hround, hpass⟩ := hr round' hround' pass hpass
    exact (h.sound round hround pass hpass).snoc event
  current _ _ _ _ _ _ hsweeping := absurd hn hsweeping

/-- A log is backed after a turn that takes on the latest pass. -/
private theorem onward {stage new : Stage} {rounds' : List Round} (h : first.Backed events id stage rounds)
    (event : Event) {begun : Nat} {pass' : MountPass} {passes : List MountPass} {older : List Round}
    (heq : rounds' = { begun, passes := pass' :: passes } :: older)
    (hpasses : ∀ other ∈ passes, ∃ round ∈ rounds, other ∈ round.passes) (holder : older ⊆ rounds)
    (hs : pass'.Sound first (events ++ [event]) id)
    (hc : new.sweeping? ≠ none →
      pass'.Current first (events ++ [event]) id (first.steps (events ++ [event])).stores) :
    first.Backed (events ++ [event]) id new rounds' := by
  subst heq
  constructor
  · intro round hround other hother
    rcases List.mem_cons.1 hround with rfl | hround
    · rcases List.mem_cons.1 hother with rfl | hother
      · exact hs
      · obtain ⟨round, hround, hother⟩ := hpasses other hother
        exact (h.sound round hround other hother).snoc event
    · exact (h.sound round (holder hround) other hother).snoc event
  · intro round older' pass passes' hrounds hround hsweeping
    cases hrounds
    cases hround
    exact hc hsweeping

/-- A turn of a sweep keeps its log backed. -/
private theorem turned (h : first.Backed events id job.stage rounds) (hs : first.SweepSound events id job.stage)
    (hin : ∀ s, job.stage.inside? = some s → ∃ store, (first.steps events).stores[s]? = some store)
    {new : Stage} {shelves : List Shelf} {rounds' : List Round}
    (ht : Transition (first.steps events) id job job.stage new shelves)
    (hstores : (first.steps (events ++ [.run id])).stores = storesOn shelves)
    (hl : Logged (first.steps events) job events.length new rounds rounds') :
    first.Backed (events ++ [.run id]) id new rounds' := by
  have hacts {pass : MountPass} {cycle : SweepCycle} {before : SweepReport}
      (hcurrent : MountPass.Current first (events ++ [.run id]) id (first.steps events).stores
        (pass.takenUp events.length (first.steps events).clock.read? job.stage))
      (hg : (pass.turned events.length (first.steps events).clock.read? before job.stage new).Goes cycle
        ((first.steps events).isCancelled job.token) new) :
      (pass.turned events.length (first.steps events).clock.read? before job.stage new).Current first
        (events ++ [.run id]) id (first.steps (events ++ [.run id])).stores := by
    refine hcurrent.acts (by simp) (by simp [MountPass.turned]) hg ?_
    rw [hstores]
    exact (hg.acts ht).of_takenUp
  cases hl with
  | outside _ hn =>
    exact h.outside _ (Stage.sweeping?_of_cycle? hn) fun round hround pass hpass => ⟨round, hround, hpass⟩
  | start _ hn =>
    subst hn
    refine h.outside _ rfl fun round hround pass hpass => ?_
    rcases List.mem_cons.1 hround with rfl | hround
    · cases hpass
    · exact ⟨round, hround, hpass⟩
  | finish _ _ _ hn =>
    have hsweeping : new.sweeping? = none := by
      rcases hn with rfl | ⟨due, rfl⟩ <;> rfl
    refine h.outside _ hsweeping fun round hround pass hpass => ?_
    rcases List.mem_cons.1 hround with rfl | hround
    · exact ⟨_, List.mem_cons_self, hpass⟩
    · exact ⟨round, List.mem_cons_of_mem _ hround, hpass⟩
  | enter ho _ hg =>
    have hcurrent := hacts (.unlisted (by rw [ho]; rfl) (by rw [ho]; rfl)) hg
    exact h.onward _ rfl (fun other hother => ⟨_, List.mem_cons_self, hother⟩) (List.subset_cons_self _ _)
      hcurrent.sound fun _ => hcurrent
  | within hk hp hg =>
    have hbefore := h.current _ _ _ _ rfl rfl (by simp [hk])
    have hcurrent := hacts (taken (takes hs hin hp) (by simp) (by simp) hbefore) hg
    exact h.onward _ rfl (fun other hother => ⟨_, List.mem_cons_self, List.mem_cons_of_mem _ hother⟩)
      (List.subset_cons_self _ _) hcurrent.sound fun _ => hcurrent
  | expire hk hp hn =>
    subst hn
    have hsound := (h.current _ _ _ _ rfl rfl (by simp [hk])).sound.snoc (.run id)
    exact h.onward _ rfl (fun other hother => ⟨_, List.mem_cons_self, List.mem_cons_of_mem _ hother⟩)
      (List.subset_cons_self _ _) (hsound.congr rfl rfl rfl) fun hsweeping => absurd rfl hsweeping

/-- So does the end of the time for a mount. -/
private theorem expired (h : first.Backed events id job.stage rounds) {table : List (String × Nat)}
    (ht : Tracks table job.request ((first.steps events).isCancelled job.token) job.stage rounds) {new : Stage}
    {shelves : List Shelf} (hx : Expiry (first.steps events) id job.stage new shelves) :
    first.Backed (events ++ [.expire id]) id new (Round.expired job.stage new rounds) := by
  cases hx with
  | @skip store cycle shelf hk =>
    obtain ⟨begun, pass, passes, older, rfl, -, -⟩ := ht.of_sweeping hk
    have hsound := (h.current _ _ _ _ rfl rfl (by simp [hk])).sound.snoc (.expire id)
    rw [Round.expired_within hk]
    exact h.onward _ rfl (fun other hother => ⟨_, List.mem_cons_self, List.mem_cons_of_mem _ hother⟩)
      (List.subset_cons_self _ _) (hsound.congr rfl rfl rfl) fun hsweeping => absurd rfl hsweeping

end Backed

private theorem backed_step (hu : first.Unused) (event : Event)
    (h : ∀ job, (first.steps events).jobs[id]? = some job → first.Backed events id job.stage (first.rounds events id))
    (hj : (first.steps (events ++ [event])).jobs[id]? = some job) :
    first.Backed (events ++ [event]) id job.stage (first.rounds (events ++ [event]) id) := by
  have hlocks := (LocksSound.of_unused hu).steps events
  have hmounts := (LocksSound.of_unused hu).mounts_steps events
  cases hbefore : (first.steps events).jobs[id]? with
  | none =>
    rw [rounds_snoc, note_absent hbefore, rounds_absent hu hbefore]
    exact .empty
  | some old =>
    have hold := h old hbefore
    have htracks := tracks_steps hu events hbefore
    have hnoted := hlocks.note_cases hbefore event events.length (first.rounds events)
    rw [← rounds_snoc, ← steps_snoc] at hnoted
    cases hnoted with
    | same hsame hnext hr =>
      cases hj.symm.trans hnext
      rw [hr]
      refine ⟨fun round hround pass hpass => (hold.sound round hround pass hpass).snoc event, ?_⟩
      intro round older pass passes hrounds hpasses hsweeping
      have hcurrent := hold.current round older pass passes hrounds hpasses hsweeping
      refine hcurrent.snoc event fun listing hlisting => ?_
      by_cases hm : event.Moves id
      · rw [hsame hm]
      · obtain ⟨⟨store, cycle⟩, hk⟩ := Option.ne_none_iff_exists'.1 hsweeping
        obtain ⟨begun, pass', passes', older', heq, -, hat, -⟩ := htracks.of_sweeping hk
        rw [hrounds] at heq
        cases heq
        cases hpasses
        rw [steps_snoc]
        exact hlocks.store_same ((inside?_eq hbefore).trans (hat.inside hlisting)) hm
    | @turn new shelves he ht hs _ hnext hr =>
      cases hj.symm.trans hnext
      subst he
      rw [hr]
      rw [← hmounts] at htracks
      have hturned := htracks.turned events.length ht
      by_cases hsweeps : old.request.Sweeps
      · refine hold.turned (SweepSound.steps hu events hbefore hsweeps) (fun s hi => ?_) ht hs hturned.logged
        have hlt := hlocks.placed id s (by simp [claim?, stage?_eq hbefore, Stage.claim?_of_inside? hi])
        exact ⟨_, store_of_shelf (List.getElem?_eq_getElem hlt)⟩
      · rw [hturned.tracks.eq_nil hsweeps]
        exact .empty
    | skip he hx _ _ hnext hr =>
      cases hj.symm.trans hnext
      subst he
      rw [hr]
      exact hold.expired htracks hx

/-- In every run the logs of the sweeps are backed by what has happened to the stores. -/
theorem backed_steps (hu : first.Unused) (events : List Event) (hj : (first.steps events).jobs[id]? = some job) :
    first.Backed events id job.stage (first.rounds events id) := by
  induction events using List.reverseRecOn generalizing job with
  | nil =>
    have hnone : first.jobs[id]? = some job := hj
    rw [hu.jobs] at hnone
    cases hnone
  | append_singleton events event ih => exact backed_step hu event (fun _ hj => ih hj) hj

theorem sound_of_round (hu : first.Unused) {round : Round} (hround : round ∈ first.rounds events id)
    (hpass : pass ∈ round.passes) : pass.Sound first events id := by
  obtain ⟨job, hj⟩ := job_of_round hu hround
  exact (backed_steps hu events hj).sound round hround pass hpass

/-- What an event that is a turn of a sweep, or the end of the time for its mount, does to the log and to the
stores. -/
inductive Works (c : Cache) (turn : Nat) : List Round → List Round → List Store → Prop
  | same {rounds : List Round} : Works c turn rounds rounds c.stores
  | start {rounds : List Round} : Works c turn rounds ({ begun := turn } :: rounds) c.stores
  | finish {begun passes report older} : Works c turn ({ begun, passes } :: older)
      ({ begun, passes, ended := some (turn, report) } :: older) c.stores
  | enter {begun passes older new stores'} {pass pass' : MountPass}
      (hn : pass = { path := pass.path, store := pass.store })
      (hp : pass'.place = pass.place) (hl : MountPass.Takes c turn pass pass')
      (ha : MountPass.Acts c.stores turn pass pass' new stores') :
      Works c turn ({ begun, passes } :: older) ({ begun, passes := pass' :: passes } :: older) stores'
  | within {begun passes older new stores'} {pass pass' : MountPass} (hp : pass'.place = pass.place)
      (hl : MountPass.Takes c turn pass pass') (ha : MountPass.Acts c.stores turn pass pass' new stores') :
      Works c turn ({ begun, passes := pass :: passes } :: older) ({ begun, passes := pass' :: passes } :: older)
        stores'

private theorem works_turn (hr : job.request.Sweeps) (hs : first.SweepSound events id job.stage)
    (hin : ∀ s, job.stage.inside? = some s → ∃ store, (first.steps events).stores[s]? = some store)
    {new : Stage} {shelves : List Shelf} {rounds' : List Round}
    (ht : Transition (first.steps events) id job job.stage new shelves)
    (hlog : Tracks.Turned (first.steps events) job events.length new rounds rounds') :
    Works (first.steps events) events.length rounds rounds' (storesOn shelves) := by
  have hrests (hout : new.sweeping? = none) : storesOn shelves = (first.steps events).stores :=
    ht.stores (hlog.tracks.unacknowledged hr hout)
  have hturned {pass : MountPass} {now : Option Instant} {before : SweepReport}
      (hl : MountPass.Takes (first.steps events) events.length pass (pass.takenUp events.length now job.stage)) :
      MountPass.Takes (first.steps events) events.length pass
        (pass.turned events.length now before job.stage new) := by
    have heq : (pass.turned events.length now before job.stage new).listing =
        (pass.takenUp events.length now job.stage).listing := by simp [MountPass.turned]
    cases hl with
    | same hl => exact .same (heq.trans hl)
    | taken hn hl ht hc hs hshown => exact .taken hn (heq.trans hl) ht hc hs hshown
  cases hlog.logged with
  | outside _ hn =>
    rw [hrests (Stage.sweeping?_of_cycle? hn)]
    exact .same
  | start _ hn =>
    rw [hrests (by rw [hn]; rfl)]
    exact .start
  | finish _ _ _ hn =>
    have hsweeping : new.sweeping? = none := by
      rcases hn with rfl | ⟨due, rfl⟩ <;> rfl
    rw [hrests hsweeping]
    exact .finish
  | enter ho _ hg =>
    refine .enter rfl (by simp) (hturned ?_) (hg.acts ht)
    rw [ho]
    exact .same rfl
  | within _ hp hg => exact .within (by simp) (hturned (takes hs hin hp)) (hg.acts ht)
  | expire _ _ hn =>
    rw [hrests (by rw [hn]; rfl)]
    exact .within rfl (.same rfl) (show MountPass.Acts _ _ _ _ new _ from .rests rfl)

/-- What an event does to the log of a sweep that it moves, and to the stores. -/
theorem works (hu : first.Unused) (hj : (first.steps events).jobs[id]? = some job) (hr : job.request.Sweeps)
    {event : Event} (hm : event.Moves id) : Works (first.steps events) events.length (first.rounds events id)
      (first.rounds (events ++ [event]) id) (first.steps (events ++ [event])).stores := by
  have hlocks := (LocksSound.of_unused hu).steps events
  have hmounts := (LocksSound.of_unused hu).mounts_steps events
  have htracks := tracks_steps hu events hj
  have hnoted := hlocks.note_cases hj event events.length (first.rounds events)
  rw [← rounds_snoc, ← steps_snoc] at hnoted
  cases hnoted with
  | same hsame _ hround =>
    rw [hround, hsame hm]
    exact .same
  | turn _ ht hs _ _ hround =>
    rw [← hmounts] at htracks
    have hturned := htracks.turned events.length ht
    rw [hround, hs]
    refine works_turn hr (SweepSound.steps hu events hj hr) (fun s hi => ?_) ht hturned
    have hlt := hlocks.placed id s (by simp [claim?, stage?_eq hj, Stage.claim?_of_inside? hi])
    exact ⟨_, store_of_shelf (List.getElem?_eq_getElem hlt)⟩
  | @skip new _ _ hx hs _ _ hround =>
    rw [hround, hs]
    cases hx with
    | @skip s cycle shelf hk =>
      obtain ⟨begun, pass, passes, older, heq, -, -⟩ := htracks.of_sweeping hk
      rw [heq, Round.expired_within hk]
      have hrests : MountPass.Acts (first.steps events).stores events.length pass
          { pass with fate := some .expired, share := { skippedMounts := 1 } } (.between cycle.skip)
          (first.steps events).stores := .rests rfl
      exact .within rfl (.same rfl) hrests

end Cache

end RoutedCache

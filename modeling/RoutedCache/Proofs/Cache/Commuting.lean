import RoutedCache.Proofs.Cache.Calls
import RoutedCache.Proofs.Cache.Counting
import RoutedCache.Proofs.Cache.Frame
import RoutedCache.Proofs.Cache.Shelves
import RoutedCache.Proofs.Store.Contents

/-!
# Calls about different keys commute

What a call comes to that is served (`Cache.Comes`) hangs on the entry of its key and on whether the lock of its store
is held, and on nothing else of the shelves (`Comes.of_cell`); and it leaves the shelves as they are but for the entry of
its key (`Comes.outside_eq`, `Comes.cellAt_eq`).  So two calls with different keys do not notice each other, in
whichever order they are served (`Cache.serves_commute`).
-/

namespace RoutedCache

/-! ### Shelves without outages -/

theorem Store.plain_of_bare {store store' : Store} (h : store'.bare = store.bare) : store'.Plain ↔ store.Plain := by
  cases store <;> cases store' <;> first | exact Iff.rfl | cases h

/-- The shelf has a store in memory or of documents that serves every request. -/
structure Shelf.Healthy (shelf : Shelf) : Prop where
  plain : shelf.store.Plain
  outages : shelf.outages = []

namespace Shelf.Healthy

variable {shelf : Shelf}

theorem lockRefusal? (h : shelf.Healthy) : shelf.lockRefusal? = none := by
  simp [Shelf.lockRefusal?, Shelf.outage?, h.outages, h.plain.lockRefusal?]

theorem requested (h : shelf.Healthy) : shelf.requested = shelf := by
  obtain ⟨store, lock, outages⟩ := shelf
  cases h.outages
  rfl

theorem wears (h : shelf.Healthy) {shelf' : Shelf} (hw : shelf.Wears shelf') : shelf'.Healthy := by
  obtain ⟨hplain, houtages⟩ := h
  obtain ⟨hbare, hsuffix⟩ := hw
  refine ⟨(Store.plain_of_bare hbare).2 hplain, ?_⟩
  rw [houtages] at hsuffix
  exact List.suffix_nil.1 hsuffix

end Shelf.Healthy

namespace Cache

/-- All stores are in memory or of documents, and they serve every request. -/
def Healthy (c : Cache) : Prop := ∀ (s : Nat) (shelf : Shelf), c.shelves[s]? = some shelf → shelf.Healthy

variable {c : Cache}

theorem Healthy.steps (h : c.Healthy) (hl : c.LocksSound) (events : List Event) : (c.steps events).Healthy := by
  intro s shelf' hs'
  have hlt : s < c.shelves.length := by
    rw [← hl.length_steps events]
    exact (List.getElem?_eq_some_iff.1 hs').1
  obtain ⟨shelf'', hs'', hw⟩ := hl.wears_steps (List.getElem?_eq_getElem hlt) events
  obtain rfl := Option.some.inj (hs'.symm.trans hs'')
  exact (h s _ (List.getElem?_eq_getElem hlt)).wears hw

end Cache

/-! ### One call in a store -/

namespace Store.Serves

variable {clock : Clock} {store store' content : Store} {visit : Visit} {answer : Answer} {call : StoreCall}
  {key : String}

/-- What a call about a key comes to hangs on the entry of the key. -/
theorem of_cell (h : store.Serves clock visit answer content) (hc : visit.call? = some call)
    (hk : call.key? = some key) (hb : store'.bare = store.bare) (hcell : store'.cell? key = store.cell? key) :
    ∃ content', store'.Serves clock visit answer content' ∧ content'.cell? key = content.cell? key := by
  obtain ⟨hreply, hafter⟩ := perform_local hb hk hcell
  cases h with
  | put =>
    cases hc
    exact ⟨_, .put, hafter⟩
  | delete =>
    cases hc
    exact ⟨_, .delete, hafter⟩
  | get hnext =>
    cases hc
    rw [← hreply] at hnext
    exact ⟨_, .get hnext, hcell⟩
  | @burn key' record hnext =>
    cases hc
    cases hk
    rw [← hreply] at hnext
    have hdeletion : (StoreCall.delete key).key? = some key := rfl
    exact ⟨_, .burn hnext, (perform_local hb hdeletion hcell).2⟩

theorem sameBut (h : store.Serves clock visit answer content) (hc : visit.call? = some call)
    (hk : call.key? = some key) : store.SameBut key content := by
  cases h with
  | put =>
    cases hc
    exact store.sameBut_perform hk
  | delete =>
    cases hc
    exact store.sameBut_perform hk
  | get => exact .refl key store
  | burn =>
    cases hc
    cases hk
    exact store.sameBut_perform rfl

theorem bare (h : store.Serves clock visit answer content) : content.bare = store.bare := by
  cases h with
  | get => rfl
  | _ => exact bare_perform store _

end Store.Serves

/-! ### One call in a cache -/

/-- What a shelf is without its entries: its store, and whether its lock is held. -/
def Shelf.outside (shelf : Shelf) : Store × Bool := (shelf.store.bare, shelf.lock.holder.isSome)

section Shelves

variable {shelves shelves' : List Shelf} {s : Nat} {shelf shelf' : Shelf}

private theorem map_outside_set (hs : shelves[s]? = some shelf) (ho : shelf'.outside = shelf.outside) :
    (shelves.set s shelf').map Shelf.outside = shelves.map Shelf.outside := by
  refine List.ext_getElem? fun i => ?_
  rw [List.map_set, List.getElem?_set, List.getElem?_map]
  split
  next heq =>
    subst heq
    have hlt := (List.getElem?_eq_some_iff.1 hs).1
    rw [if_pos (by simpa using hlt), hs, Option.map_some, ho]
  next => rfl

private theorem cellAt_set (hs : shelves[s]? = some shelf) {s' : Nat} {key : String}
    (hc : s' = s → shelf'.store.cell? key = shelf.store.cell? key) :
    cellAt (shelves.set s shelf') s' key = cellAt shelves s' key := by
  unfold cellAt
  rw [List.getElem?_set]
  split
  next heq =>
    subst heq
    rw [if_pos (List.getElem?_eq_some_iff.1 hs).1, hs]
    exact hc rfl
  next => rfl

private theorem cellAt_asked (hs : shelves[s]? = some shelf) (id : JobId) (s' : Nat) (key : String) :
    cellAt (shelves.set s (shelf.asked id)) s' key = cellAt shelves s' key := cellAt_set hs fun _ => rfl

/-- The stores of shelves are known by their entries and by what the shelves are without them. -/
private theorem storesOn_ext (ho : shelves'.map Shelf.outside = shelves.map Shelf.outside)
    (hc : ∀ s key, cellAt shelves' s key = cellAt shelves s key) : storesOn shelves' = storesOn shelves := by
  refine List.ext_getElem? fun s => ?_
  have hos := congrArg (·[s]?) ho
  simp only [List.getElem?_map] at hos
  unfold storesOn
  rw [List.getElem?_map, List.getElem?_map]
  cases hs : shelves[s]? with
  | none =>
    rw [hs, Option.map_none, Option.map_eq_none_iff] at hos
    rw [hos]
  | some shelf =>
    rw [hs, Option.map_some] at hos
    obtain ⟨shelf', hs', hout⟩ := Option.map_eq_some_iff.1 hos
    rw [hs', Option.map_some, Option.map_some, Store.ext_cells (congrArg Prod.fst hout) fun key => ?_]
    have hkey := hc s key
    simpa [cellAt, hs, hs'] using hkey

end Shelves

namespace Cache

/-- What a call comes to that is served: its stage and the shelves after it. -/
inductive Comes (c : Cache) (request : Request) (token : Token) : Stage → List Shelf → Prop
  | refused {answer} (h : request.route c.mounts c.clock = .error answer) :
      Comes c request token (.finished answer) c.shelves
  | lost {s visit} (h : request.route c.mounts c.clock = .ok (s, visit)) (hs : c.shelves[s]? = none) :
      Comes c request token .ready c.shelves
  | cancelled {s visit shelf} (h : request.route c.mounts c.clock = .ok (s, visit))
      (hs : c.shelves[s]? = some shelf) (hc : c.isCancelled token = true) :
      Comes c request token (.finished (.failed .cancelled)) c.shelves
  | waits {s visit shelf} (h : request.route c.mounts c.clock = .ok (s, visit))
      (hs : c.shelves[s]? = some shelf) (hc : c.isCancelled token = false)
      (hl : shelf.lock.holder.isSome = true) :
      Comes c request token (.queued s visit) (c.shelves.set s (shelf.asked c.jobs.length))
  | served {s visit shelf answer content} (h : request.route c.mounts c.clock = .ok (s, visit))
      (hs : c.shelves[s]? = some shelf) (hc : c.isCancelled token = false)
      (hl : shelf.lock.holder.isSome = false) (hv : shelf.store.Serves c.clock visit answer content) :
      Comes c request token (.finished answer) (c.shelves.set s { shelf with store := content })

/-- The cache with one more job and other shelves. -/
def withJob (c : Cache) (request : Request) (token : Token) (stage : Stage) (shelves : List Shelf) : Cache :=
  { c with
    shelves
    jobs := c.jobs ++ [{ request, token, stage }]
    counters := c.counters.tally .ready stage }

variable {c c' : Cache} {request : Request} {token : Token} {stage : Stage} {shelves : List Shelf} {s : Nat}
  {visit : Visit} {shelf : Shelf}

/-- The store that a call is routed to is that of its target, and its first call is about the target. -/
theorem target_of_route (hcall : request.IsCall) (h : request.route c.mounts c.clock = .ok (s, visit)) :
    ∃ call key, visit.call? = some call ∧ request.target? c.mounts = some (s, key) ∧ call.key? = some key := by
  have hc : ∃ call, visit.call? = some call := by
    cases Request.firstVisit h hcall <;> exact ⟨_, rfl⟩
  obtain ⟨call, hc⟩ := hc
  have hdue : Course.Due c.mounts request { began := c.clock } s visit := .first h rfl
  obtain ⟨key, htarget, hk⟩ := hdue.target hcall hc
  exact ⟨call, key, hc, htarget, hk⟩

/-- A call without a store to go to stays where it is. -/
private theorem serve_lost (hcall : request.IsCall) (h : request.route c.mounts c.clock = .ok (s, visit))
    (hs : c.shelves[s]? = none) :
    c.serve request token = c.withJob request token .ready c.shelves := by
  have hroute : request.route (c.step (.start request token)).mounts (c.step (.start request token)).clock =
      .ok (s, visit) := h
  have hj : (c.step (.start request token)).jobs[c.jobs.length]? = some { request, token } :=
    List.getElem?_concat_length ..
  have hshelf : (c.step (.start request token)).shelves[s]? = none := hs
  have hrun : (c.step (.start request token)).run c.jobs.length = c.step (.start request token) := by
    simp only [run, hj]
    rw [begin_admitted hroute rfl]
    simp only [ask, hshelf]
  rw [serve_eq hcall, hrun, hrun, hrun]
  rfl

/-- A call that finds the lock held waits for it. -/
private theorem serve_waits (hl : c.LocksSound) (hcall : request.IsCall)
    (h : request.route c.mounts c.clock = .ok (s, visit)) (hs : c.shelves[s]? = some shelf) (hh : shelf.Healthy)
    (hc : c.isCancelled token = false) {holder : Holder} (hheld : shelf.lock.holder = some holder) :
    c.serve request token =
      c.withJob request token (.queued s visit) (c.shelves.set s (shelf.asked c.jobs.length)) := by
  have hlt := (List.getElem?_eq_some_iff.1 hs).1
  -- The holder is one of the jobs that were there before.
  have hne : holder ≠ .job c.jobs.length := by
    rintro rfl
    have hclaim := (hl.members s shelf hs _).1 (Lock.holder_mem hheld)
    simp [claim?, stage?] at hclaim
  have hasked : (shelf.asked c.jobs.length).lock.holder = some holder := Lock.holder_ask hheld _
  have hwaits : c.withJob request token (.queued s visit) (c.shelves.set s (shelf.asked c.jobs.length)) =
      c.engaged s (shelf.asked c.jobs.length) { request, token, stage := .queued s visit } := rfl
  have hholds (stage : Stage) : (c.engaged s (shelf.asked c.jobs.length) { request, token, stage }).holds s
      c.jobs.length = false := by
    simp [holds, shelf_engaged hlt, hasked, hne]
  have hfirst : (c.step (.start request token)).run c.jobs.length =
      c.engaged s (shelf.asked c.jobs.length) { request, token, stage := .queued s visit } := by
    have hroute : request.route (c.engaged s shelf { request, token }).mounts
        (c.engaged s shelf { request, token }).clock = .ok (s, visit) := h
    have hcancelled (shelves : List Shelf) :
        ({ c.engaged s shelf { request, token } with shelves } : Cache).isCancelled token = false := hc
    rw [step_start hs]
    simp only [run, jobs_engaged]
    rw [begin_admitted hroute rfl]
    simp only [ask, shelf_engaged hlt, hh.lockRefusal?, hcancelled, Bool.false_eq_true, ↓reduceIte, hh.requested,
      set_engaged]
    rw [setLock_engaged hlt]
    have hsame : ({ shelf with lock := shelf.lock.ask c.jobs.length } : Shelf) = shelf.asked c.jobs.length := by
      rw [Shelf.asked, hh.requested]
    rw [hsame, if_neg (by simp [hholds]), setStage_engaged]
  have hstays : (c.engaged s (shelf.asked c.jobs.length) { request, token, stage := .queued s visit }).run
      c.jobs.length = c.engaged s (shelf.asked c.jobs.length) { request, token, stage := .queued s visit } := by
    have hcancelled : (c.engaged s (shelf.asked c.jobs.length)
        { request, token, stage := .queued s visit }).isCancelled token = false := hc
    simp only [run, jobs_engaged]
    rw [if_neg (by simp [hcancelled]), if_neg (by simp [hholds])]
  rw [serve_eq hcall, hfirst, hstays, hstays, hwaits]

/-- A call whose lock is free finds its shelf open. -/
private theorem open_of_free (hl : c.LocksSound) (hh : c.Healthy) (hs : c.shelves[s]? = some shelf)
    (hfree : shelf.lock.holder.isSome = false) : shelf.Open := by
  have hnone : shelf.lock.holder = none := by simpa using hfree
  refine ⟨(hh s shelf hs).plain, ?_, (hh s shelf hs).outages⟩
  have hwaiting := (hl.sound s shelf hs).free hnone
  obtain ⟨store, ⟨holder, waiting⟩, outages⟩ := shelf
  cases hnone
  cases hwaiting
  rfl

/-- Every call comes to something. -/
theorem comes (hl : c.LocksSound) (hh : c.Healthy) (hcall : request.IsCall) (token : Token) :
    ∃ stage shelves, Comes c request token stage shelves := by
  cases hroute : request.route c.mounts c.clock with
  | error answer => exact ⟨_, _, .refused hroute⟩
  | ok place =>
    obtain ⟨s, visit⟩ := place
    cases hs : c.shelves[s]? with
    | none => exact ⟨_, _, .lost hroute hs⟩
    | some shelf =>
      cases hc : c.isCancelled token with
      | true => exact ⟨_, _, .cancelled hroute hs hc⟩
      | false =>
        cases hfree : shelf.lock.holder.isSome with
        | true => exact ⟨_, _, .waits hroute hs hc hfree⟩
        | false =>
          obtain ⟨answer, content, hv, -⟩ := serve_served hcall hroute hs (open_of_free hl hh hs hfree) hc
          exact ⟨_, _, .served hroute hs hc hfree hv⟩

namespace Comes

/-- The cache after a call that is served. -/
theorem serve_eq (h : Comes c request token stage shelves) (hl : c.LocksSound) (hh : c.Healthy)
    (hcall : request.IsCall) : c.serve request token = c.withJob request token stage shelves := by
  cases h with
  | refused hroute => exact serve_refused hcall hroute
  | lost hroute hs => exact serve_lost hcall hroute hs
  | cancelled hroute hs hc =>
    exact serve_cancelled hcall hroute hs (hh _ _ hs).lockRefusal? (hh _ _ hs).requested hc
  | waits hroute hs hc hheld =>
    obtain ⟨holder, hholder⟩ := Option.isSome_iff_exists.1 hheld
    exact serve_waits hl hcall hroute hs (hh _ _ hs) hc hholder
  | served hroute hs hc hfree hv =>
    obtain ⟨answer, content, hv', heq⟩ := serve_served hcall hroute hs (open_of_free hl hh hs hfree) hc
    obtain ⟨rfl, rfl⟩ := hv.unique hv'
    exact heq

/-- A call leaves the shelves as they are but for their entries. -/
theorem outside_eq (h : Comes c request token stage shelves) :
    shelves.map Shelf.outside = c.shelves.map Shelf.outside := by
  cases h with
  | waits _ hs _ hheld =>
    refine map_outside_set hs ?_
    obtain ⟨holder, hholder⟩ := Option.isSome_iff_exists.1 hheld
    have hasked := Lock.holder_ask hholder c.jobs.length
    simp [Shelf.outside, Shelf.asked, Shelf.requested, hasked, hholder]
  | served _ hs _ _ hv => exact map_outside_set hs (by simp [Shelf.outside, hv.bare])
  | _ => rfl

/-- A call leaves all entries as they are but that of its key. -/
theorem cellAt_eq (h : Comes c request token stage shelves) (hcall : request.IsCall) {s : Nat} {key : String}
    (hne : request.target? c.mounts ≠ some (s, key)) : cellAt shelves s key = cellAt c.shelves s key := by
  cases h with
  | waits _ hs => exact cellAt_asked hs ..
  | served hroute hs _ _ hv =>
    refine cellAt_set hs ?_
    rintro rfl
    obtain ⟨call, stored, hc, htarget, hk⟩ := target_of_route hcall hroute
    refine (hv.sameBut hc hk).cells key ?_
    rintro rfl
    exact hne htarget
  | _ => rfl

/-- What a call comes to hangs on the entry of its key and on what the shelves are without their entries. -/
theorem of_cell (h : Comes c request token stage shelves) (hcall : request.IsCall) (hmounts : c'.mounts = c.mounts)
    (hclock : c'.clock = c.clock) (hcancelled : c'.cancelled = c.cancelled)
    (ho : c'.shelves.map Shelf.outside = c.shelves.map Shelf.outside)
    (hcell : ∀ s key, request.target? c.mounts = some (s, key) → cellAt c'.shelves s key = cellAt c.shelves s key) :
    ∃ shelves', Comes c' request token stage shelves' ∧ ∀ s key, request.target? c.mounts = some (s, key) →
      cellAt shelves' s key = cellAt shelves s key := by
  have hshelf (s : Nat) : c'.shelves[s]?.map Shelf.outside = c.shelves[s]?.map Shelf.outside := by
    simpa using congrArg (·[s]?) ho
  have hother {s : Nat} {shelf : Shelf} (hs : c.shelves[s]? = some shelf) :
      ∃ shelf', c'.shelves[s]? = some shelf' ∧ shelf'.store.bare = shelf.store.bare ∧
        shelf'.lock.holder.isSome = shelf.lock.holder.isSome := by
    have hsome := hshelf s
    rw [hs, Option.map_some] at hsome
    obtain ⟨shelf', hs', heq⟩ := Option.map_eq_some_iff.1 hsome
    exact ⟨shelf', hs', congrArg Prod.fst heq, congrArg Prod.snd heq⟩
  have htoken : c'.isCancelled token = c.isCancelled token := by rw [isCancelled, isCancelled, hcancelled]
  have hroute' {result : Except Answer (Nat × Visit)} (hroute : request.route c.mounts c.clock = result) :
      request.route c'.mounts c'.clock = result := by rw [hmounts, hclock, hroute]
  cases h with
  | refused hroute => exact ⟨_, .refused (hroute' hroute), hcell⟩
  | @lost s _ hroute hs =>
    have hnone : c'.shelves[s]? = none := by simpa [hs] using hshelf s
    exact ⟨_, .lost (hroute' hroute) hnone, hcell⟩
  | cancelled hroute hs hc =>
    obtain ⟨shelf', hs', -, -⟩ := hother hs
    exact ⟨_, .cancelled (hroute' hroute) hs' (htoken.trans hc), hcell⟩
  | waits hroute hs hc hheld =>
    obtain ⟨shelf', hs', -, hlock⟩ := hother hs
    refine ⟨_, .waits (hroute' hroute) hs' (htoken.trans hc) (hlock.trans hheld), fun s key htarget => ?_⟩
    rw [cellAt_asked hs', cellAt_asked hs]
    exact hcell s key htarget
  | @served s visit shelf answer content hroute hs hc hfree hv =>
    obtain ⟨shelf', hs', hbare, hlock⟩ := hother hs
    obtain ⟨call, stored, hvisit, htarget, hk⟩ := target_of_route hcall hroute
    have hstored : shelf'.store.cell? stored = shelf.store.cell? stored := by
      simpa [cellAt, hs, hs'] using hcell s stored htarget
    obtain ⟨content', hv', hafter⟩ := hv.of_cell hvisit hk hbare hstored
    rw [← hclock] at hv'
    refine ⟨_, .served (hroute' hroute) hs' (htoken.trans hc) (hlock.trans hfree) hv', fun s' key htarget' => ?_⟩
    rw [htarget] at htarget'
    cases htarget'
    have hlt := (List.getElem?_eq_some_iff.1 hs).1
    have hlt' := (List.getElem?_eq_some_iff.1 hs').1
    simpa [cellAt, hlt, hlt'] using hafter

/-- A call with another target does not change what a call comes to. -/
theorem after {request' : Request} {token' : Token} {stage' : Stage} {shelves' : List Shelf}
    (h : Comes c request token stage shelves) (h' : Comes c request' token' stage' shelves')
    (hcall : request.IsCall) (hcall' : request'.IsCall)
    (hne : ∀ place, request.target? c.mounts = some place → request'.target? c.mounts ≠ some place) :
    ∃ shelves'', Comes (c.withJob request' token' stage' shelves') request token stage shelves'' ∧
      ∀ s key, request.target? c.mounts = some (s, key) → cellAt shelves'' s key = cellAt shelves s key :=
  h.of_cell hcall rfl rfl rfl h'.outside_eq fun _ _ htarget => h'.cellAt_eq hcall' (hne _ htarget)

/-- The stores after two calls with different targets are the same in both orders. -/
theorem storesOn_eq {request' : Request} {token' : Token} {stage' : Stage} {shelves' both both' : List Shelf}
    (h : Comes c request token stage shelves) (h' : Comes c request' token' stage' shelves')
    (hcall : request.IsCall) (hcall' : request'.IsCall)
    (hboth : Comes (c.withJob request token stage shelves) request' token' stage' both)
    (hboth' : Comes (c.withJob request' token' stage' shelves') request token stage both')
    (hcell : ∀ s key, request'.target? c.mounts = some (s, key) → cellAt both s key = cellAt shelves' s key)
    (hcell' : ∀ s key, request.target? c.mounts = some (s, key) → cellAt both' s key = cellAt shelves s key)
    (hne : ∀ place, request.target? c.mounts = some place → request'.target? c.mounts ≠ some place) :
    storesOn both = storesOn both' := by
  refine storesOn_ext ?_ fun s key => ?_
  · calc both.map Shelf.outside = shelves.map Shelf.outside := hboth.outside_eq
      _ = c.shelves.map Shelf.outside := h.outside_eq
      _ = shelves'.map Shelf.outside := h'.outside_eq.symm
      _ = both'.map Shelf.outside := hboth'.outside_eq.symm
  · by_cases hfirst : request.target? c.mounts = some (s, key)
    · have hsecond := hne _ hfirst
      rw [hcell' s key hfirst]
      exact hboth.cellAt_eq hcall' hsecond
    · have hlast : cellAt both' s key = cellAt shelves' s key := hboth'.cellAt_eq hcall hfirst
      rw [hlast]
      by_cases hsecond : request'.target? c.mounts = some (s, key)
      · exact hcell s key hsecond
      · calc cellAt both s key = cellAt shelves s key := hboth.cellAt_eq hcall' hsecond
          _ = cellAt c.shelves s key := h.cellAt_eq hcall hfirst
          _ = cellAt shelves' s key := (h'.cellAt_eq hcall' hsecond).symm

end Comes

/-! ### Two calls -/

theorem Counters.count_right_comm (counters : Counters) (a b : Answer) :
    (counters.count a).count b = (counters.count b).count a := by
  simp only [Counters.count_eq_add, Counters.add, Nat.add_right_comm]

/-- Each call adds its own part to the counters. -/
theorem Counters.tally_ready_right_comm (counters : Counters) (stage stage' : Stage) :
    (counters.tally .ready stage).tally .ready stage' = (counters.tally .ready stage').tally .ready stage := by
  cases stage with
  | finished answer =>
    cases stage' with
    | finished answer' => exact count_right_comm counters answer answer'
    | _ => rfl
  | _ => cases stage' <;> rfl

/-- The request has nobody to wait for: it is refused, or the lock of the store to which it leads is free. -/
def Unhindered (c : Cache) (request : Request) : Prop :=
  ∀ s visit, request.route c.mounts c.clock = .ok (s, visit) →
    ∃ shelf, c.shelves[s]? = some shelf ∧ shelf.lock.holder = none

/-- Served one after the other, two calls come to the same in both orders. -/
structure Commute (c : Cache) (request request' : Request) (token token' : Token) : Prop where
  answer : ((c.serve request token).serve request' token').answer? c.jobs.length =
    ((c.serve request' token').serve request token).answer? (c.jobs.length + 1)
  answer' : ((c.serve request token).serve request' token').answer? (c.jobs.length + 1) =
    ((c.serve request' token').serve request token).answer? c.jobs.length
  stores : ((c.serve request token).serve request' token').stores =
    ((c.serve request' token').serve request token).stores
  counters : ((c.serve request token).serve request' token').counters =
    ((c.serve request' token').serve request token).counters
  /-- A call that does not have to wait for other jobs has an answer. -/
  answered : c.Unhindered request →
    ((c.serve request token).serve request' token').answer? c.jobs.length ≠ none
  answered' : c.Unhindered request' →
    ((c.serve request token).serve request' token').answer? (c.jobs.length + 1) ≠ none

theorem stage?_withJob_last : (c.withJob request token stage shelves).stage? c.jobs.length = some stage := by
  simp [withJob, stage?]

theorem stage?_withJob {id : JobId} (h : id < c.jobs.length) :
    (c.withJob request token stage shelves).stage? id = c.stage? id := by
  simp [withJob, stage?, List.getElem?_append_left h]

theorem length_withJob : (c.withJob request token stage shelves).jobs.length = c.jobs.length + 1 := by
  simp [withJob]

/-- A call that does not have to wait is over. -/
theorem Comes.over (h : Comes c request token stage shelves) (hfree : c.Unhindered request) :
    ∃ answer, stage = .finished answer := by
  cases h with
  | lost hroute hs =>
    obtain ⟨shelf, hs', -⟩ := hfree _ _ hroute
    rw [hs] at hs'
    cases hs'
  | waits hroute hs _ hheld =>
    obtain ⟨shelf, hs', hnone⟩ := hfree _ _ hroute
    rw [hs] at hs'
    cases hs'
    rw [hnone] at hheld
    cases hheld
  | _ => exact ⟨_, rfl⟩

theorem target_ne {request' : Request} {text text' : String} (hr : request.spelling? = some text)
    (hr' : request'.spelling? = some text') (hne : trimSlashes text ≠ trimSlashes text') (mounts : MountTable Nat) :
    ∀ place, request.target? mounts = some place → request'.target? mounts ≠ some place := by
  intro place htarget htarget'
  rw [Request.target?_of_spelling? hr] at htarget
  rw [Request.target?_of_spelling? hr'] at htarget'
  obtain ⟨_, -, rfl⟩ := Option.map_eq_some_iff.1 htarget
  obtain ⟨_, -, heq⟩ := Option.map_eq_some_iff.1 htarget'
  exact hne (congrArg Prod.snd heq).symm

/-- Calls with different targets commute in every cache whose locks are in order. -/
theorem commute_of_sound (hl : c.LocksSound) (hh : c.Healthy) {request' : Request} (hcall : request.IsCall)
    (hcall' : request'.IsCall)
    (hne : ∀ place, request.target? c.mounts = some place → request'.target? c.mounts ≠ some place)
    (token token' : Token) : c.Commute request request' token token' := by
  have hne' : ∀ place, request'.target? c.mounts = some place → request.target? c.mounts ≠ some place :=
    fun place h' h => hne place h h'
  obtain ⟨stage, shelves, h⟩ := comes hl hh hcall token
  obtain ⟨stage', shelves', h'⟩ := comes hl hh hcall' token'
  obtain ⟨both, hboth, hcell⟩ := h'.after h hcall' hcall hne'
  obtain ⟨both', hboth', hcell'⟩ := h.after h' hcall hcall' hne
  have hserve := h.serve_eq hl hh hcall
  have hserve' := h'.serve_eq hl hh hcall'
  have hsound : (c.withJob request token stage shelves).LocksSound := hserve ▸ hl.steps _
  have hsound' : (c.withJob request' token' stage' shelves').LocksSound := hserve' ▸ hl.steps _
  have hhealthy : (c.withJob request token stage shelves).Healthy := hserve ▸ hh.steps hl _
  have hhealthy' : (c.withJob request' token' stage' shelves').Healthy := hserve' ▸ hh.steps hl _
  have hfirst : (c.serve request token).serve request' token' =
      (c.withJob request token stage shelves).withJob request' token' stage' both := by
    rw [hserve, hboth.serve_eq hsound hhealthy hcall']
  have hsecond : (c.serve request' token').serve request token =
      (c.withJob request' token' stage' shelves').withJob request token stage both' := by
    rw [hserve', hboth'.serve_eq hsound' hhealthy' hcall]
  have hearly {r r' : Request} {t t' : Token} {st st' : Stage} {sh sh' : List Shelf} :
      ((c.withJob r t st sh).withJob r' t' st' sh').stage? c.jobs.length = some st := by
    rw [stage?_withJob (by simp [length_withJob]), stage?_withJob_last]
  have hlate {r r' : Request} {t t' : Token} {st st' : Stage} {sh sh' : List Shelf} :
      ((c.withJob r t st sh).withJob r' t' st' sh').stage? (c.jobs.length + 1) = some st' := by
    rw [← length_withJob, stage?_withJob_last]
  constructor
  · simp only [hfirst, hsecond, answer?, hearly, hlate]
  · simp only [hfirst, hsecond, answer?, hearly, hlate]
  · rw [hfirst, hsecond]
    exact h.storesOn_eq h' hcall hcall' hboth hboth' hcell hcell' hne
  · rw [hfirst, hsecond]
    exact Counters.tally_ready_right_comm c.counters stage stage'
  · intro hfree
    obtain ⟨answer, rfl⟩ := h.over hfree
    simp only [hfirst, answer?, hearly]
    simp
  · intro hfree
    obtain ⟨answer, rfl⟩ := h'.over hfree
    simp only [hfirst, answer?, hlate]
    simp

/-- In every state that a cache over stores in memory and of documents can be in, and whatever the clock shows, two
calls whose keys differ are answered in the same way and leave the same stores and counters in whichever order they are
served, be their keys in one mount, in mounts that share a store or in mounts of different stores. -/
theorem serves_commute {first : Cache} (hu : first.Unused) (hh : first.Healthy) (events : List Event) (clock : Clock)
    {request request' : Request} {text text' : String} (hr : request.spelling? = some text)
    (hr' : request'.spelling? = some text') (hne : trimSlashes text ≠ trimSlashes text') (token token' : Token) :
    Commute { first.steps events with clock } request request' token token' := by
  have hlocks := LocksSound.of_unused hu
  have hl : LocksSound { first.steps events with clock } := (hlocks.steps events).of_eq rfl rfl
  have hhealthy : Healthy { first.steps events with clock } := hh.steps hlocks events
  exact commute_of_sound hl hhealthy (Request.isCall_of_spelling? hr) (Request.isCall_of_spelling? hr')
    (target_ne hr hr' hne _) token token'

/-- A read that burns its record and a read of a document that cannot be decoded, in two mounts of one store. -/
theorem serves_commute_shared :
    let documents : Documents := KeyMap.empty.insert "a/bad" [123]
    let first := fresh ⟨(KeyMap.empty.insert "a" 0).insert "ab" 0⟩ [.document [] "c" .empty documents] 0 0
      (.ofInstant default)
    let events : List Event := [.start (.write "ab/k" [7] [.burnAfterReading]) .never, .run 0, .run 0, .run 0]
    let c : Cache := { first.steps events with clock := .ofInstant default }
    let both := (c.serve (.read "/ab/k") .never).serve (.read "a/bad") .trip
    first.Unused ∧ first.Healthy ∧ (Request.read "/ab/k").spelling? = some "/ab/k" ∧
      (Request.read "a/bad").spelling? = some "a/bad" ∧ trimSlashes "/ab/k" ≠ trimSlashes "a/bad" ∧
      c.Commute (.read "/ab/k") (.read "a/bad") .never .trip ∧
      both.answer? 1 = some (.record ⟨[7], { createdAt := default, burnAfterReading := true }⟩) ∧
      both.answer? 2 = some (.failed (.backend .undecodable)) ∧
      both.stores = [.document [] "c" .empty documents] := by
  intro documents first events c both
  have hu : first.Unused := unused_fresh ..
  have hh : first.Healthy := by
    intro s shelf hs
    obtain ⟨store, hstore, rfl⟩ := getElem?_fresh hs
    have hmem := List.mem_of_getElem? hstore
    rw [List.mem_singleton] at hmem
    rw [hmem]
    exact ⟨trivial, rfl⟩
  have hne : trimSlashes "/ab/k" ≠ trimSlashes "a/bad" := by decide +kernel
  exact ⟨hu, hh, rfl, rfl, hne, serves_commute hu hh events _ rfl rfl hne .never .trip, by decide +kernel,
    by decide +kernel, by decide +kernel⟩

end Cache

end RoutedCache

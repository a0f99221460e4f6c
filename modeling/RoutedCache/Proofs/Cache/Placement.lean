import RoutedCache.Proofs.Cache.Frame
import RoutedCache.Proofs.Key
import RoutedCache.Proofs.Store.Contents

/-!
# Entries are where the mounts say

A cache that is used through its requests alone puts a record only under a stored key, into the store that is mounted
at the leading segment of the key (`Cache.puts_led`).  So every entry is in the store of the one mount that owns its
key, a listing by the path of this mount shows it, and the calls that come to it are those that spell its key
(`Cache.within_reach`).
-/

namespace RoutedCache

/-- The request leaves it to the cache which calls are made to the stores. -/
def Request.Routes : Request → Prop
  | .calls .. => False
  | _ => True

/-- The mounts lead the key, which is one that can be stored, to the store with this number. -/
def MountTable.Leads (mounts : MountTable Nat) (key : String) (s : Nat) : Prop :=
  (∃ text, normalizeKey text = .ok key) ∧ ∃ path, mounts.resolve key = .ok (path, s)

namespace MountTable.Leads

variable {mounts : MountTable Nat} {key text : String} {s : Nat}

theorem unslashed (h : mounts.Leads key s) : Unslashed key := by
  obtain ⟨⟨text, htext⟩, -⟩ := h
  exact (normalizeKey_eq_ok_iff.1 htext).2.1

theorem normalizeKey (h : mounts.Leads key s) (ht : Spells text key) : normalizeKey text = .ok key := by
  obtain ⟨⟨other, hother⟩, -⟩ := h
  exact normalizeKey_eq_ok_iff.2 ⟨ht, (normalizeKey_eq_ok_iff.1 hother).2⟩

/-- However the key is spelled, it has its place in this store. -/
theorem place (h : mounts.Leads key s) (ht : Spells text key) : mounts.place text = .ok (key, s) := by
  obtain ⟨path, hmount⟩ := h.2
  rw [place_of_normalized (h.normalizeKey ht), hmount]
  rfl

theorem get? (h : mounts.Leads key s) : mounts.byPath.get? (leadingSegment key) = some s := by
  obtain ⟨path, hmount⟩ := h.2
  exact get?_of_resolve hmount

/-- One mount owns the key, and the key starts with its path. -/
theorem mount (h : mounts.Leads key s) : ∃ path, (path, s) ∈ mounts.mounts ∧ owns path key = true ∧
    (∀ mount ∈ mounts.mounts, owns mount.1 key = true → mount = (path, s)) ∧ startsWith path key = true := by
  obtain ⟨path, hmount⟩ := h.2
  obtain ⟨hsegment, hmem⟩ := resolve_eq_ok_iff.1 hmount
  have howns : owns path key = true := owns_iff.2 hsegment
  refine ⟨path, hmem, howns, fun other hother howns' => ?_, startsWith_of_owns h.unslashed howns⟩
  have hresolve := resolve_eq_ok_iff.2 ⟨owns_iff.1 howns', hother⟩
  rw [hmount] at hresolve
  exact (Except.ok.inj hresolve).symm

/-- A write that spells the key is answered at once, or it comes with its record to this store. -/
theorem write (h : mounts.Leads key s) (ht : Spells text key) (clock : Clock) (data : Bytes)
    (options : List WriteOption) :
    (∃ answer, Request.freshEntry clock.read? text data options = .error answer ∧
      (Request.write text data options).route mounts clock = .error answer) ∨
    ∃ record, Request.freshEntry clock.read? text data options = .ok ⟨key, record⟩ ∧
      (Request.write text data options).route mounts clock = .ok (s, .put ⟨key, record⟩) := by
  obtain ⟨path, hmount⟩ := h.2
  cases hfresh : Request.freshEntry clock.read? text data options with
  | error answer => exact .inl ⟨answer, rfl, by simp only [Request.route, hfresh]⟩
  | ok entry =>
    obtain ⟨_, -, hkey, -⟩ := Request.freshEntry_eq_ok hfresh
    rw [h.normalizeKey ht] at hkey
    obtain ⟨stored, record⟩ := entry
    cases hkey
    exact .inr ⟨record, rfl, by simp only [Request.route, hfresh, hmount]⟩

/-- The calls that are about this entry are those that spell its key. -/
theorem target?_iff (h : mounts.Leads key s) {request : Request} (hr : request.spelling? = some text) :
    request.target? mounts = some (s, key) ↔ Spells text key := by
  rw [Request.target?_of_spelling? hr]
  constructor
  · intro htarget
    obtain ⟨_, -, heq⟩ := Option.map_eq_some_iff.1 htarget
    cases heq
    exact spells_trimSlashes text
  · intro ht
    rw [trimSlashes_of_spells ht h.unslashed, h.get?, Option.map_some]

end MountTable.Leads

/-- Every entry of the stores is where the mounts lead its key, with a record as a put leaves it. -/
def Settled (mounts : MountTable Nat) (stores : List Store) : Prop :=
  ∀ (s : Nat) (store : Store) (key : String) (cell : Cell), stores[s]? = some store →
    store.cell? key = some cell → mounts.Leads key s ∧ ∃ record, cell = store.cellOf ⟨key, record⟩

/-- A call that puts records only where the mounts lead them leaves the stores settled. -/
theorem Settled.perform {mounts : MountTable Nat} {stores : List Store} (h : Settled mounts stores) {s : Nat}
    {store : Store} (hs : stores[s]? = some store) {call : StoreCall}
    (hput : ∀ entry, call = .put entry → mounts.Leads entry.key s) :
    Settled mounts (stores.set s (store.perform call).2) := by
  intro s' store' key cell hs' hcell
  rw [List.getElem?_set] at hs'
  split at hs'
  next heq =>
    subst heq
    split at hs'
    next =>
      cases hs'
      rcases Store.cell?_perform hcell with hold | ⟨entry, rfl, rfl, rfl⟩
      · simpa using h s store key cell hs hold
      · exact ⟨hput entry rfl, entry.record, by simp⟩
    next => cases hs'
  next => exact h s' store' key cell hs' hcell

/-- A write, a read or a delete that puts a record has been led to the store by the mounts. -/
theorem Course.Due.leads {mounts : MountTable Nat} {request : Request} {course : Course} {s : Nat}
    {visit : Visit} (hd : course.Due mounts request s visit) (hcall : request.IsCall) {entry : KeyRecord}
    (hc : visit.call? = some (.put entry)) : mounts.Leads entry.key s := by
  cases hd with
  | first hr =>
    cases Request.routed hr with
    | @write key data options _ path _ hfresh hmount =>
      cases hc
      obtain ⟨_, -, hkey, -⟩ := Request.freshEntry_eq_ok hfresh
      exact ⟨⟨key, hkey⟩, path, hmount⟩
    | calls => exact hcall.elim
    | _ => cases hc
  | burn => cases hc

namespace Cache

variable {first : Cache} {id : JobId} {job : Job}

/-- Every job has been started with its request. -/
theorem started (hu : first.Unused) {events : List Event} (hj : (first.steps events).jobs[id]? = some job) :
    .start job.request job.token ∈ events := by
  induction events using List.reverseRecOn generalizing job with
  | nil => simp [steps, hu.jobs] at hj
  | append_singleton before event ih =>
    have hlocks := (LocksSound.of_unused hu).steps before
    cases hold : (first.steps before).jobs[id]? with
    | none =>
      rw [steps_snoc] at hj
      rw [(hlocks.job_new hold hj).1]
      exact List.mem_append_right _ List.mem_cons_self
    | some old =>
      rw [steps_append] at hj
      obtain ⟨hrequest, htoken⟩ := hlocks.job_before hold hj
      rw [← hrequest, ← htoken]
      exact List.mem_append_left _ (ih hold)

/-- A job other than a write, a read or a delete puts nothing, unless it has been told its calls. -/
theorem put_of_otherStage {request : Request} {s : Nat} {visit : Visit} {reply : Reply}
    (h : OtherStage request (.returned s visit reply)) (hr : request.Routes) (entry : KeyRecord) :
    visit.call? ≠ some (.put entry) := by
  intro hc
  cases visit with
  | calls =>
    obtain ⟨store, calls, rfl, -⟩ := h
    exact hr
  | list => cases hc
  | evict => cases hc
  | hold => cases hc
  | _ => exact h.elim

/-- An event changes the stores by one call at most, and it puts a record only where the mounts lead it. -/
theorem puts_led (hu : first.Unused) {before : List Event} (event : Event)
    (hr : ∀ request token, .start request token ∈ before → request.Routes) :
    (first.steps (before ++ [event])).stores = (first.steps before).stores ∨
      ∃ (s : Nat) (store : Store) (call : StoreCall), (first.steps before).stores[s]? = some store ∧
        (first.steps (before ++ [event])).stores = (first.steps before).stores.set s (store.perform call).2 ∧
        ∀ entry, call = .put entry → first.mounts.Leads entry.key s := by
  have hlocks := (LocksSound.of_unused hu).steps before
  by_cases hm : ∃ j, event.Moves j
  · obtain ⟨j, hm⟩ := hm
    cases hj : (first.steps before).jobs[j]? with
    | none =>
      rw [steps_snoc, step_absent hj hm]
      exact .inl rfl
    | some job =>
      by_cases hcall : job.request.IsCall
      · rcases acknowledges_turn hu hj hcall hm with hsame | ⟨rfl, s, key, visit, hack⟩
        · exact .inl hsame
        · obtain ⟨call, store, hc, -, hs, -, hstores⟩ := hack.stores
          obtain ⟨course, hdue, -⟩ := hack.course
          exact .inr ⟨s, store, call, hs, hstores, fun entry heq => hdue.leads hcall (heq ▸ hc)⟩
      · have hroutes : job.request.Routes := hr _ _ (started hu hj)
        rw [steps_snoc]
        rcases hlocks.moved hj hm with hsame | ⟨rfl, ht, hstores, hj'⟩ | ⟨-, -, hstores, -⟩
        · rw [hsame]
          exact .inl rfl
        · have htouches := ht.touches
          cases htouches with
          | rest h => exact .inl (hstores.trans h)
          | @call s visit call store hc hs hd h =>
            rw [← steps_snoc] at hj'
            have hother := otherStage_steps hu hj' hcall
            exact .inr ⟨s, store, call, hs, hstores.trans h, fun entry heq =>
              absurd (heq ▸ hc) (put_of_otherStage hother hroutes entry)⟩
        · exact .inl hstores
  · have hnone (j : JobId) : ¬event.Moves j := fun h => hm ⟨j, h⟩
    rw [steps_snoc, hlocks.stores_same hnone]
    exact .inl rfl

/-- Stores that are settled stay so in every run of a cache that is used through its requests alone. -/
theorem settled_steps (hu : first.Unused) (h : Settled first.mounts first.stores) (events : List Event)
    (hr : ∀ request token, .start request token ∈ events → request.Routes) :
    Settled first.mounts (first.steps events).stores := by
  induction events using List.reverseRecOn with
  | nil => exact h
  | append_singleton before event ih =>
    have hr' : ∀ request token, .start request token ∈ before → request.Routes :=
      fun request token hmem => hr request token (List.mem_append_left _ hmem)
    have hbefore := ih hr'
    rcases puts_led hu event hr' with hsame | ⟨s, store, call, hs, hstores, hput⟩
    · rw [hsame]
      exact hbefore
    · rw [hstores]
      exact hbefore.perform hs hput

/-! ### Entries and the calls that come to them -/

/-- Where the entry of a key stands and who comes to it, in a store at the end of a run. -/
structure WithinReach (first : Cache) (events : List Event) (s : Nat) (store : Store) (key : String) : Prop where
  nonempty : key ≠ ""
  short : key.utf8ByteSize ≤ 1024
  unslashed : Unslashed key
  /-- The one mount that owns the key is bound to the store, and a listing by its path shows the entry, unless the
  store refuses all listings. -/
  mount : ∃ path, (path, s) ∈ first.mounts.mounts ∧ MountTable.owns path key = true ∧
    (∀ mount ∈ first.mounts.mounts, MountTable.owns mount.1 key = true → mount = (path, s)) ∧
    startsWith path key = true ∧ ∃ record, store.cell? key = some (store.cellOf ⟨key, record⟩) ∧
      ((∃ entries, store.perform (.list path) = (.listed entries, store) ∧ ⟨key, record⟩ ∈ entries) ∨
        ∃ faults entries, store = .faulty faults entries ∧ faults.refuseList = true)
  read : ∀ text, Spells text key → ∀ clock,
    (Request.read text).route first.mounts clock = .ok (s, .get key)
  delete : ∀ text, Spells text key → ∀ clock,
    (Request.delete text).route first.mounts clock = .ok (s, .delete key)
  write : ∀ text, Spells text key → ∀ clock data options,
    (∃ answer, Request.freshEntry clock.read? text data options = .error answer ∧
      (Request.write text data options).route first.mounts clock = .error answer) ∨
    ∃ record, Request.freshEntry clock.read? text data options = .ok ⟨key, record⟩ ∧
      (Request.write text data options).route first.mounts clock = .ok (s, .put ⟨key, record⟩)
  /-- However the run goes on, a call that spells the key asks for this entry and no other, and any other call asks
  for another entry. -/
  calls : ∀ (more : List Event) (id : JobId) (job : Job) (text : String),
    (first.steps (events ++ more)).jobs[id]? = some job → job.request.spelling? = some text →
      ∀ (s' : Nat) (call : StoreCall) (reply : Reply), job.stage.made? = some (s', call, reply) →
        ((s', call.key?) = (s, some key) ↔ Spells text key)

/-- The calls of a write, a read or a delete are about the entry of its key. -/
theorem target_of_made (hu : first.Unused) {events : List Event} (hj : (first.steps events).jobs[id]? = some job)
    (hcall : job.request.IsCall) {s : Nat} {call : StoreCall} {reply : Reply}
    (hm : job.stage.made? = some (s, call, reply)) :
    ∃ key, job.request.target? first.mounts = some (s, key) ∧ call.key? = some key := by
  have hsound := sound_course hu hj hcall
  generalize first.course events id = course at hsound
  generalize hstage : job.stage = stage at hm hsound
  cases hsound with
  | @returned _ visit _ call' _ _ _ hdue hc hf =>
    rw [Stage.made?, hc] at hm
    cases hm
    exact hdue.target hcall hc
  | _ => cases hm

/-- Every entry that was put through the mounts alone is within the reach of the sweeps and of its own calls. -/
theorem within_reach {first : Cache} (hu : first.Unused)
    (hempty : ∀ (s : Nat) (store : Store), first.stores[s]? = some store → ∀ key, store.cell? key = none)
    (events : List Event) (hr : ∀ request token, .start request token ∈ events → request.Routes)
    {s : Nat} {store : Store} (hs : (first.steps events).stores[s]? = some store) {key : String}
    (hkey : store.cell? key ≠ none) : first.WithinReach events s store key := by
  obtain ⟨cell, hcell⟩ := Option.ne_none_iff_exists'.1 hkey
  have hfirst : Settled first.mounts first.stores := by
    intro s store key cell hs hcell
    rw [hempty s store hs] at hcell
    cases hcell
  obtain ⟨hleads, record, rfl⟩ := settled_steps hu hfirst events hr s store key cell hs hcell
  obtain ⟨text, htext⟩ := hleads.1
  obtain ⟨-, hbare, hnonempty, hshort⟩ := normalizeKey_eq_ok_iff.1 htext
  obtain ⟨path, hmem, howns, hsingle, hstart⟩ := hleads.mount
  exact {
    nonempty := hnonempty
    short := hshort
    unslashed := hbare
    mount := ⟨path, hmem, howns, hsingle, hstart, record, hcell, store.list_shows hcell hstart⟩
    read := fun text ht clock => by simp only [Request.route, hleads.place ht]
    delete := fun text ht clock => by simp only [Request.route, hleads.place ht]
    write := fun text ht clock data options => hleads.write ht clock data options
    calls := fun more id job text hj hspelling s' call reply hmade => by
      obtain ⟨key', htarget, hc⟩ := target_of_made hu hj (Request.isCall_of_spelling? hspelling) hmade
      rw [← hleads.target?_iff hspelling, htarget, hc]
      simp }

/-- Two mounts share a store of documents, and the path of one starts with that of the other. -/
theorem within_reach_shared :
    let first := fresh ⟨(KeyMap.empty.insert "a" 0).insert "ab" 0⟩ [.document [] "c" .empty .empty] 0 0
      (.ofInstant default)
    let record : Record := ⟨[7], { createdAt := default }⟩
    let events : List Event := [.start (.write "//ab/k/" [7] []) .never, .run 0, .run 0, .start .sweep .never, .run 1]
    let store : Store := .document [] "c" .empty (Documents.put .empty ⟨"ab/k", record⟩)
    first.Unused ∧ (∀ (s : Nat) (store : Store), first.stores[s]? = some store → ∀ key, store.cell? key = none) ∧
      (∀ request token, .start request token ∈ events → request.Routes) ∧
      (first.steps events).stores[0]? = some store ∧ store.cell? "ab/k" ≠ none ∧
      first.WithinReach events 0 store "ab/k" := by
  intro first record events store
  have hu : first.Unused := unused_fresh ..
  have hempty : ∀ (s : Nat) (store : Store), first.stores[s]? = some store → ∀ key, store.cell? key = none := by
    intro s store hs key
    have hmem := List.mem_of_getElem? hs
    rw [show first.stores = [.document [] "c" .empty .empty] from rfl, List.mem_singleton] at hmem
    rw [hmem]
    rfl
  have hr : ∀ request token, .start request token ∈ events → request.Routes := by
    intro request token hmem
    simp [events] at hmem
    rcases hmem with ⟨rfl, -⟩ | ⟨rfl, -⟩ <;> trivial
  have hs : (first.steps events).stores[0]? = some store := by decide +kernel
  have hkey : store.cell? "ab/k" ≠ none := by decide +kernel
  exact ⟨hu, hempty, hr, hs, hkey, within_reach hu hempty events hr hs hkey⟩

end Cache

end RoutedCache

import RoutedCache.Proofs.Cache.Serve
import RoutedCache.Proofs.Cache.Trail

/-!
# Calls that are served

A write, a read or a delete whose store is free is over as soon as it is served (`Cache.serve_call`): it is refused
before it asks for a lock, or cancelled, or it has done in its store what `Store.Serves` says.
-/

namespace RoutedCache

/-- What a first visit comes to in a store: the answer and the store after it. -/
inductive Store.Serves (clock : Clock) (store : Store) : Visit → Answer → Store → Prop
  | put {entry} : Serves clock store (.put entry) .written (store.perform (.put entry)).2
  | delete {key} : Serves clock store (.delete key) .deleted (store.perform (.delete key)).2
  | get {key answer} (h : (Visit.get key).next clock false (store.perform (.get key)).1 = .answer answer) :
      Serves clock store (.get key) answer store
  | burn {key record}
      (h : (Visit.get key).next clock false (store.perform (.get key)).1 = .stay (.burn key record)) :
      Serves clock store (.get key) (.record record) (store.perform (.delete key)).2

/-- A call that is served has one answer, and it leaves one store. -/
theorem Store.Serves.unique {clock : Clock} {store content content' : Store} {visit : Visit}
    {answer answer' : Answer} (h : store.Serves clock visit answer content)
    (h' : store.Serves clock visit answer' content') : answer' = answer ∧ content' = content := by
  cases h with
  | put =>
    cases h'
    exact ⟨rfl, rfl⟩
  | delete =>
    cases h'
    exact ⟨rfl, rfl⟩
  | get hnext =>
    cases h' with
    | get hnext' =>
      cases hnext.symm.trans hnext'
      exact ⟨rfl, rfl⟩
    | burn hnext' => cases hnext.symm.trans hnext'
  | burn hnext =>
    cases h' with
    | get hnext' => cases hnext.symm.trans hnext'
    | burn hnext' =>
      cases hnext.symm.trans hnext'
      exact ⟨rfl, rfl⟩

namespace Cache

/-- What a request comes to that is served at once: the answer and the shelves after it. -/
inductive Served (c : Cache) (request : Request) (token : Token) : Answer → List Shelf → Prop
  | refused {answer} (h : request.route c.mounts c.clock = .error answer) :
      Served c request token answer c.shelves
  | cancelled {store visit} (h : request.route c.mounts c.clock = .ok (store, visit))
      (hc : c.isCancelled token = true) : Served c request token (.failed .cancelled) c.shelves
  | served {store visit shelf answer content} (h : request.route c.mounts c.clock = .ok (store, visit))
      (hc : c.isCancelled token = false) (hs : c.shelves[store]? = some shelf)
      (hv : shelf.store.Serves c.clock visit answer content) :
      Served c request token answer (c.shelves.set store { shelf with store := content })

/-- The cache with a job that is over. -/
def answered (c : Cache) (request : Request) (token : Token) (answer : Answer) (shelves : List Shelf) : Cache :=
  { c with
    shelves
    jobs := c.jobs ++ [{ request, token, stage := .finished answer }]
    counters := c.counters.count answer }

variable {c : Cache} {request : Request} {token : Token} {answer : Answer}

theorem answer?_answered (shelves : List Shelf) :
    (c.answered request token answer shelves).answer? c.jobs.length = some answer := by
  simp [answered, answer?, stage?]

theorem serve_eq (hcall : request.IsCall) (c : Cache) (token : Token) : c.serve request token =
    (((c.step (.start request token)).run c.jobs.length).run c.jobs.length).run c.jobs.length := by
  cases request with
  | write => rfl
  | read => rfl
  | delete => rfl
  | _ => exact hcall.elim

private theorem run_answered (shelves : List Shelf) :
    (c.answered request token answer shelves).run c.jobs.length =
    c.answered request token answer shelves :=
  runs_over (c := c.answered request token answer shelves) (List.getElem?_concat_length ..) rfl 1

theorem serve_refused (hcall : request.IsCall) (h : request.route c.mounts c.clock = .error answer) :
    c.serve request token = c.answered request token answer c.shelves := by
  have hrun : (c.step (.start request token)).run c.jobs.length =
      c.answered request token answer c.shelves := by
    have hj : (c.step (.start request token)).jobs[c.jobs.length]? = some { request, token } :=
      List.getElem?_concat_length ..
    have hroute : request.route (c.step (.start request token)).mounts (c.step (.start request token)).clock =
        .error answer := h
    have hbegin : (c.step (.start request token)).begin c.jobs.length { request, token } =
        (c.step (.start request token)).finish c.jobs.length answer := by
      cases request with
      | write => simp only [begin, hroute]
      | read => simp only [begin, hroute]
      | delete => simp only [begin, hroute]
      | _ => exact hcall.elim
    simp only [run, hj]
    rw [hbegin, finish, step, setStage_last]
    rfl
  rw [serve_eq hcall, hrun, run_answered, run_answered]

variable {store : Nat} {shelf : Shelf} {visit : Visit}

/-- A cancelled call is over at once, whoever holds the lock. -/
theorem serve_cancelled (hcall : request.IsCall)
    (h : request.route c.mounts c.clock = .ok (store, visit)) (hs : c.shelves[store]? = some shelf)
    (hf : shelf.lockRefusal? = none) (hr : shelf.requested = shelf) (hc : c.isCancelled token = true) :
    c.serve request token = c.answered request token (.failed .cancelled) c.shelves := by
  have hroute : request.route (c.step (.start request token)).mounts (c.step (.start request token)).clock =
      .ok (store, visit) := h
  have hj : (c.step (.start request token)).jobs[c.jobs.length]? = some { request, token } :=
    List.getElem?_concat_length ..
  have hshelf : (c.step (.start request token)).shelves[store]? = some shelf := hs
  have hrequested : c.shelves.set store shelf.requested = c.shelves := by
    obtain ⟨hlt, heq⟩ := List.getElem?_eq_some_iff.1 hs
    rw [hr, ← heq, List.set_getElem_self]
  have hcancelled (shelves : List Shelf) :
      ({ c.step (.start request token) with shelves } : Cache).isCancelled token = true := hc
  have hrun : (c.step (.start request token)).run c.jobs.length =
      c.answered request token (.failed .cancelled) c.shelves := by
    simp only [run, hj]
    rw [begin_admitted hroute rfl]
    simp only [ask, hshelf, hf]
    rw [if_pos (hcancelled _), (Request.firstVisit h hcall).fail]
    simp only [proceed, finish, step, hrequested]
    rw [setStage_last]
    rfl
  rw [serve_eq hcall, hrun, run_answered, run_answered]

theorem serve_served (hcall : request.IsCall) (h : request.route c.mounts c.clock = .ok (store, visit))
    (hs : c.shelves[store]? = some shelf) (ho : shelf.Open) (hc : c.isCancelled token = false) :
    ∃ answer content, shelf.store.Serves c.clock visit answer content ∧
      c.serve request token =
        c.answered request token answer (c.shelves.set store { shelf with store := content }) := by
  have hlt := (List.getElem?_eq_some_iff.1 hs).1
  have hstart := step_start hs request token
  have hover (answer : Answer) (content : Store) : { c with counters := c.counters.count answer }.engaged store
      { shelf with store := content } { request, token, stage := .finished answer } =
        c.answered request token answer (c.shelves.set store { shelf with store := content }) := rfl
  have hplain (call : StoreCall) : (shelf.store.perform call).2.Plain := ho.plain.perform call
  rw [serve_eq hcall, hstart]
  cases Request.firstVisit h hcall with
  | @put entry =>
    refine ⟨_, _, .put, ?_⟩
    have hnext : (Visit.put entry).next c.clock (c.isCancelled token) (shelf.store.perform (.put entry)).1 =
        .answer .written := by
      rw [ho.plain.put]
      rfl
    rw [run_admitted hlt ho h hc rfl, run_leave hlt ho hnext, hover, run_answered]
  | @delete key =>
    refine ⟨_, _, .delete, ?_⟩
    have hnext : (Visit.delete key).next c.clock (c.isCancelled token) (shelf.store.perform (.delete key)).1 =
        .answer .deleted := by
      rw [ho.plain.delete]
      rfl
    rw [run_admitted hlt ho h hc rfl, run_leave hlt ho hnext, hover, run_answered]
  | @get key hread =>
    rw [run_admitted hlt ho h hc rfl]
    have hsame : (shelf.store.perform (.get key)).2 = shelf.store := ho.plain.get key
    -- A look-up is fair, so a read ends with an answer or goes on to the deletion of what it has found.
    have hfirst : FirstVisit request (.get key) := .get hread
    rcases hfirst.next rfl (shelf.store.fair_perform (.get key)) c.clock false with
      ⟨answer, hnext, -⟩ | ⟨key', entry, hnext, -, -, heq, -⟩
    · refine ⟨answer, shelf.store, .get hnext, ?_⟩
      rw [← hc] at hnext
      rw [run_leave hlt ho hnext, hover, run_answered, hsame]
    · cases heq
      refine ⟨_, _, .burn hnext, ?_⟩
      rw [← hc] at hnext
      have hburn : (Visit.burn key entry.record).next c.clock (c.isCancelled token)
          (shelf.store.perform (.delete key)).1 = .answer (.record entry.record) := by
        rw [ho.plain.delete]
        rfl
      rw [run_stay request hlt ho (hplain _) hnext rfl, hsame, run_leave hlt ho hburn, hover]

/-- A write, a read or a delete is over as soon as it is served, unless its store is not at hand. -/
theorem serve_call (c : Cache) (token : Token) (hcall : request.IsCall)
    (hclear : ∀ store visit, request.route c.mounts c.clock = .ok (store, visit) →
      ∃ shelf, c.shelves[store]? = some shelf ∧ shelf.Open) :
    ∃ answer shelves, c.Served request token answer shelves ∧
      c.serve request token = c.answered request token answer shelves := by
  cases hroute : request.route c.mounts c.clock with
  | error answer => exact ⟨answer, _, .refused hroute, serve_refused hcall hroute⟩
  | ok place =>
    obtain ⟨store, visit⟩ := place
    obtain ⟨shelf, hs, ho⟩ := hclear store visit hroute
    cases hc : c.isCancelled token with
    | true => exact ⟨_, _, .cancelled hroute hc, serve_cancelled hcall hroute hs ho.lockRefusal? ho.requested hc⟩
    | false =>
      obtain ⟨answer, content, hv, heq⟩ := serve_served hcall hroute hs ho hc
      exact ⟨answer, _, .served hroute hc hs hv, heq⟩

end Cache

end RoutedCache

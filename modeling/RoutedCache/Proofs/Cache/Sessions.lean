import RoutedCache.Proofs.Cache.Locks
import RoutedCache.Proofs.Cache.Serve
import RoutedCache.Proofs.Store.Faithful

/-!
# Sessions with a store

A session makes calls one after the other under one lock.  Sessions that start on an empty collection of documents
and on an empty store in memory get the same replies, and leave the same records behind
(`Cache.sessions_document_eq_memory`).
-/

namespace RoutedCache

/-- A reply of the kind that the call asks for; a record has the key it was asked for by. -/
def Reply.Suits (reply : Reply) : StoreCall → Prop
  | .put _ | .delete _ => reply = .done
  | .get key => ∃ entry, reply = .found entry ∧ ∀ e ∈ entry, e.key = key
  | .list start => ∃ entries, reply = .listed entries ∧ ∀ e ∈ entries, startsWith start e.key = true

namespace Store

/-- The outcome of calls one after the other. -/
def performAll (store : Store) : List StoreCall → List Reply × Store
  | [] => ([], store)
  | call :: rest =>
    let (reply, store) := store.perform call
    let (replies, store) := store.performAll rest
    (reply :: replies, store)

/-- The outcome of sessions one after the other. -/
def performSessions (store : Store) : List (List StoreCall) → List (List Reply) × Store
  | [] => ([], store)
  | calls :: rest =>
    let (replies, store) := store.performAll calls
    let (others, store) := store.performSessions rest
    (replies :: others, store)

variable {store : Store}

theorem performAll_cons (store : Store) (call : StoreCall) (rest : List StoreCall) :
    store.performAll (call :: rest) =
      ((store.perform call).1 :: ((store.perform call).2.performAll rest).1,
        ((store.perform call).2.performAll rest).2) := rfl

theorem Plain.performAll (h : store.Plain) (calls : List StoreCall) : (store.performAll calls).2.Plain := by
  induction calls generalizing store with
  | nil => exact h
  | cons call rest ih => exact ih (h.perform call)

/-- Calls on a faithful collection are calls on its records. -/
theorem performAll_inMemory (h : store.Faithful) (calls : List StoreCall) :
    store.inMemory.performAll calls = ((store.performAll calls).1, (store.performAll calls).2.inMemory) ∧
      (store.performAll calls).2.Faithful := by
  induction calls generalizing store with
  | nil => exact ⟨rfl, h⟩
  | cons call rest ih =>
    obtain ⟨heq, hafter⟩ := ih (h.perform call)
    refine ⟨?_, hafter⟩
    rw [performAll_cons, performAll_cons, perform_inMemory h, heq]

theorem performAll_document (file : Place) (collection : String) (opened : Database) (documents : Documents)
    (calls : List StoreCall) : ∃ documents', ((document file collection opened documents).performAll calls).2 =
      document file collection opened documents' := by
  induction calls generalizing documents with
  | nil => exact ⟨documents, rfl⟩
  | cons call rest ih => exact ih (performDocuments documents call).2

theorem performSessions_cons (store : Store) (calls : List StoreCall) (rest : List (List StoreCall)) :
    store.performSessions (calls :: rest) =
      ((store.performAll calls).1 :: ((store.performAll calls).2.performSessions rest).1,
        ((store.performAll calls).2.performSessions rest).2) := rfl

theorem performSessions_inMemory (h : store.Faithful) (sessions : List (List StoreCall)) :
    store.inMemory.performSessions sessions =
        ((store.performSessions sessions).1, (store.performSessions sessions).2.inMemory) ∧
      (store.performSessions sessions).2.Faithful := by
  induction sessions generalizing store with
  | nil => exact ⟨rfl, h⟩
  | cons calls rest ih =>
    obtain ⟨heq, hfaithful⟩ := performAll_inMemory h calls
    obtain ⟨heqs, hafter⟩ := ih hfaithful
    refine ⟨?_, hafter⟩
    rw [performSessions_cons, performSessions_cons, heq, heqs]

theorem performSessions_document (file : Place) (collection : String) (opened : Database)
    (documents : Documents) (sessions : List (List StoreCall)) :
    ∃ documents', ((document file collection opened documents).performSessions sessions).2 =
      document file collection opened documents' := by
  induction sessions generalizing documents with
  | nil => exact ⟨documents, rfl⟩
  | cons calls rest ih =>
    obtain ⟨documents', h⟩ := performAll_document file collection opened documents calls
    rw [performSessions_cons, h]
    exact ih documents'

theorem suits_perform_memory (entries : KeyMap Record) (call : StoreCall) :
    ((memory entries).perform call).1.Suits call := by
  cases call with
  | put entry => rfl
  | get key =>
    refine ⟨_, rfl, fun e he => ?_⟩
    obtain ⟨record, -, rfl⟩ := Option.map_eq_some_iff.1 he
    rfl
  | list start =>
    refine ⟨_, rfl, fun e he => ?_⟩
    obtain ⟨entry, hentry, rfl⟩ := List.mem_map.1 he
    exact (List.mem_filter.1 hentry).2
  | delete key => rfl

/-- Every call on a store in memory gets a reply of its kind. -/
theorem suits_performAll_memory (entries : KeyMap Record) (calls : List StoreCall) :
    ((memory entries).performAll calls).1.length = calls.length ∧
      ∀ pair ∈ calls.zip ((memory entries).performAll calls).1, pair.2.Suits pair.1 := by
  induction calls generalizing entries with
  | nil => exact ⟨rfl, fun pair h => nomatch h⟩
  | cons call rest ih =>
    obtain ⟨hlength, hsuits⟩ := ih (performEntries entries call).2
    rw [performAll_cons]
    refine ⟨congrArg (· + 1) hlength, fun pair hpair => ?_⟩
    rcases List.mem_cons.1 hpair with rfl | hpair
    · exact suits_perform_memory entries call
    · exact hsuits pair hpair

theorem performAll_memory (entries : KeyMap Record) (calls : List StoreCall) :
    ∃ entries', ((memory entries).performAll calls).2 = memory entries' := by
  induction calls generalizing entries with
  | nil => exact ⟨entries, rfl⟩
  | cons call rest ih => exact ih (performEntries entries call).2

theorem suits_performSessions_memory (entries : KeyMap Record) (sessions : List (List StoreCall)) {i : Nat}
    {calls : List StoreCall} (hi : sessions[i]? = some calls) :
    ∃ replies, ((memory entries).performSessions sessions).1[i]? = some replies ∧
      replies.length = calls.length ∧ ∀ pair ∈ calls.zip replies, pair.2.Suits pair.1 := by
  induction sessions generalizing entries i with
  | nil => cases hi
  | cons first rest ih =>
    rw [performSessions_cons]
    cases i with
    | zero =>
      cases hi
      exact ⟨_, rfl, suits_performAll_memory entries calls⟩
    | succ i =>
      obtain ⟨entries', h⟩ := performAll_memory entries first
      rw [h]
      exact ih entries' hi

end Store

namespace Cache

/-- The store holds the content and is open to the next request. -/
def Offers (c : Cache) (store : Nat) (content : Store) : Prop :=
  ∃ shelf, c.shelves[store]? = some shelf ∧ shelf.Open ∧ shelf.store = content

/-- One session after the other. -/
def sessions (c : Cache) (store : Nat) (sessions : List (List StoreCall)) : Cache :=
  sessions.foldl (fun c calls => c.serve (.calls store calls) .never) c

variable {c : Cache} {store : Nat} {shelf : Shelf} {token : Token}

/-- From the reply to a call on, the calls that are left are made one by one. -/
private theorem steps_calls (hlt : store < c.shelves.length) (h : shelf.Open) {request : Request}
    {content : Store} (hp : content.Plain) (call : StoreCall) (rest : List StoreCall) (replies : List Reply)
    (reply : Reply) :
    (c.engaged store (shelf.heldBy c.jobs.length content)
        { request, token, stage := .returned store (.calls (call :: rest) replies) reply }).steps
        (List.replicate (rest.length + 1) (.run c.jobs.length)) =
      c.engaged store { shelf with store := (content.performAll rest).2 }
        { request, token, stage := .finished (.replies (replies ++ reply :: (content.performAll rest).1)) } := by
  induction rest generalizing content call replies reply with
  | nil =>
    have hnext : (Visit.calls [call] replies).next c.clock (c.isCancelled token) reply =
        .answer (.replies (replies ++ [reply])) := rfl
    exact run_leave hlt h hnext
  | cons call' rest ih =>
    have hnext : (Visit.calls (call :: call' :: rest) replies).next c.clock (c.isCancelled token) reply =
        .stay (.calls (call' :: rest) (replies ++ [reply])) := rfl
    have hrun := run_stay request hlt h hp hnext rfl
    rw [List.length_cons, List.replicate_succ]
    simp only [steps, List.foldl_cons, step] at ih ⊢
    rw [hrun, ih (hp.perform call'), Store.performAll_cons]
    simp

/-- A session on an open store gets the replies of the store to its calls. -/
theorem serve_calls (hs : c.shelves[store]? = some shelf) (h : shelf.Open) (hc : c.isCancelled token = false)
    (calls : List StoreCall) :
    c.serve (.calls store calls) token = c.engaged store
      { shelf with store := (shelf.store.performAll calls).2 }
      { request := .calls store calls, token,
        stage := .finished (.replies (shelf.store.performAll calls).1) } := by
  have hlt := (List.getElem?_eq_some_iff.1 hs).1
  have hroute : (Request.calls store calls).route c.mounts c.clock = .ok (store, .calls calls []) := rfl
  unfold serve
  rw [Request.runs, List.replicate_succ]
  simp only [steps, List.foldl_cons]
  rw [step_start hs]
  simp only [step]
  cases calls with
  | nil =>
    rw [run_start hlt h hroute hc]
    simp only [visitStore, Visit.call?, List.head?_nil, leave_engaged hlt h, finish_engaged]
    rfl
  | cons call rest =>
    rw [run_admitted hlt h hroute hc rfl]
    exact steps_calls hlt h (h.plain.perform call) call rest [] _

/-- Every session is answered with the replies of the store to its calls. -/
theorem sessions_spec {content : Store} (h : c.Offers store content) (hp : content.Plain)
    (hc : c.isCancelled .never = false) (sessions : List (List StoreCall)) :
    (c.sessions store sessions).Offers store (content.performSessions sessions).2 ∧
      (c.sessions store sessions).jobs.map (·.stage) = c.jobs.map (·.stage) ++
        (content.performSessions sessions).1.map fun replies => .finished (.replies replies) := by
  induction sessions generalizing c content with
  | nil => exact ⟨h, by simp [Cache.sessions, Store.performSessions]⟩
  | cons calls rest ih =>
    obtain ⟨shelf, hs, hopen, rfl⟩ := h
    have hlt := (List.getElem?_eq_some_iff.1 hs).1
    have hserve := serve_calls hs hopen hc calls
    have hp' := hp.performAll calls
    have hoffers : (c.serve (.calls store calls) .never).Offers store (shelf.store.performAll calls).2 := by
      rw [hserve]
      exact ⟨_, shelf_engaged hlt _ _, hopen.filled hp', rfl⟩
    have hcancelled : (c.serve (.calls store calls) .never).isCancelled .never = false := by
      rw [hserve]
      exact hc
    obtain ⟨hrest, hstages⟩ := ih hoffers hp' hcancelled
    rw [Store.performSessions_cons]
    refine ⟨hrest, ?_⟩
    rw [Cache.sessions, List.foldl_cons]
    refine hstages.trans ?_
    rw [hserve]
    simp [engaged]

/-- The answer of each session is the list of the replies of the store. -/
theorem answer?_sessions {content : Store} (h : c.Offers store content) (hp : content.Plain)
    (hc : c.isCancelled .never = false) (sessions : List (List StoreCall)) (i : Nat) :
    (c.sessions store sessions).answer? (c.jobs.length + i) =
      (content.performSessions sessions).1[i]?.map .replies := by
  have hstages := (sessions_spec h hp hc sessions).2
  have hstage : (c.sessions store sessions).stage? (c.jobs.length + i) =
      (content.performSessions sessions).1[i]?.map fun replies => .finished (.replies replies) := by
    rw [stage?, ← List.getElem?_map, hstages, List.getElem?_append_right (by simp)]
    simp
  rw [answer?, hstage]
  cases (content.performSessions sessions).1[i]? <;> rfl

/-- An empty collection of documents and an empty store in memory cannot be told apart by sessions: each call of
each session gets the same reply, of the kind it asks for, and in the end every key has the same record, which its
document holds under that key. -/
theorem sessions_document_eq_memory {c d : Cache} {s t : Nat} {file : Place} {collection : String}
    {opened : Database} (hc : c.Offers s (.memory .empty))
    (hd : d.Offers t (.document file collection opened .empty))
    (hcc : c.isCancelled .never = false) (hdc : d.isCancelled .never = false)
    (sessions : List (List StoreCall)) :
    (∀ i calls, sessions[i]? = some calls → ∃ replies : List Reply,
      (c.sessions s sessions).answer? (c.jobs.length + i) = some (.replies replies) ∧
      (d.sessions t sessions).answer? (d.jobs.length + i) = some (.replies replies) ∧
      replies.length = calls.length ∧ ∀ pair ∈ calls.zip replies, pair.2.Suits pair.1) ∧
    ∃ (entries : KeyMap Record) (documents : Documents),
      (c.sessions s sessions).Offers s (.memory entries) ∧
      (d.sessions t sessions).Offers t (.document file collection opened documents) ∧
      ∀ key, (documents.get? key).map KeyRecord.decode? =
        (entries.get? key).map fun record => some ⟨key, record⟩ := by
  have hfaithful : (Store.document file collection opened .empty).Faithful := Documents.faithful_empty
  have hempty : (Store.document file collection opened .empty).inMemory = .memory .empty := rfl
  obtain ⟨heq, hafter⟩ := Store.performSessions_inMemory hfaithful sessions
  obtain ⟨documents, hdocuments⟩ := Store.performSessions_document file collection opened .empty sessions
  rw [hempty] at heq
  rw [hdocuments] at heq hafter
  have hplain : (Store.document file collection opened .empty).Plain := trivial
  constructor
  · intro i calls hi
    obtain ⟨replies, hreplies, hsuits⟩ := Store.suits_performSessions_memory .empty sessions hi
    refine ⟨replies, ?_, ?_, hsuits⟩
    · rw [answer?_sessions hc trivial hcc, hreplies]
      rfl
    · rw [answer?_sessions hd hplain hdc, ← (Prod.mk.inj heq).1, hreplies]
      rfl
  · refine ⟨documents.records, documents, ?_, ?_, fun key => ?_⟩
    · have := (sessions_spec hc trivial hcc sessions).1
      rw [heq] at this
      exact this
    · have := (sessions_spec hd hplain hdc sessions).1
      rw [hdocuments] at this
      exact this
    · rw [Documents.get?_records]
      cases hget : documents.get? key with
      | none => rfl
      | some document =>
        obtain ⟨record, hrecord⟩ := hafter key document hget
        simp [Documents.record?, hrecord]

end Cache

end RoutedCache

import RoutedCache.Proofs.Cache.Calls
import RoutedCache.Proofs.Cache.Touch
import RoutedCache.Proofs.Cache.Turns

/-!
# Reads of documents

A read of a key that is mounted on a collection answers what the documents of the collection say at the time
of the clock (`Documents.answer`), and nothing else of the cache matters to it but where its mounts lead to
(`Cache.readAt_cases`, `Cache.leadsTo_eq`).
-/

namespace RoutedCache

/-- The place and the collection of a store that has a file. -/
def Store.home? : Store → Option (Place × String)
  | document place collection _ _ => some (place, collection)
  | _ => none

theorem Store.home?_bare (store : Store) : store.bare.home? = store.home? := by cases store <;> rfl

/-- What a read comes to that finds the documents of its collection like this. -/
def Documents.answer (documents : Documents) (clock : Clock) (key : String) : Answer :=
  match documents.find? key with
  | none => .failed (.backend .undecodable)
  | some none => .failed (.notFound key)
  | some (some entry) =>
    match clock.read? with
    | none => .broken
    | some now => if entry.record.isValidAt now then .record entry.record else .failed (.notFound key)

theorem Store.Serves.answer_eq {clock : Clock} {place : Place} {collection key : String} {opened : Database}
    {documents : Documents} {answer : Answer} {content : Store}
    (h : (document place collection opened documents).Serves clock (.get key) answer content) :
    answer = documents.answer clock key := by
  have hnext : (∃ record, answer = .record record ∧ (Visit.get key).next clock false
        ((document place collection opened documents).perform (.get key)).1 = .stay (.burn key record)) ∨
      (Visit.get key).next clock false
        ((document place collection opened documents).perform (.get key)).1 = .answer answer := by
    cases h with
    | get hnext => exact .inr hnext
    | burn hnext => exact .inl ⟨_, rfl, hnext⟩
  unfold Documents.answer
  cases hfind : documents.find? key with
  | none => simpa [perform, performDocuments, hfind, Visit.next, Visit.fail, eq_comm] using hnext
  | some found =>
    cases found with
    | none => simpa [perform, performDocuments, hfind, Visit.next, Visit.readOn, eq_comm] using hnext
    | some entry =>
      cases hclock : clock.read? with
      | none => simpa [perform, performDocuments, hfind, Visit.next, Visit.readOn, hclock, eq_comm] using
        hnext
      | some now =>
        cases hvalid : entry.record.isValidAt now with
        | false =>
          simpa [perform, performDocuments, hfind, Visit.next, Visit.readOn, hclock, hvalid,
            eq_comm] using hnext
        | true =>
          cases hburn : entry.record.metadata.burnAfterReading <;>
            simpa [perform, performDocuments, hfind, Visit.next, Visit.readOn, hclock, hvalid, hburn,
              eq_comm] using hnext

namespace Cache

/-- The answer to a read while the clock shows a time and no other job is under way. -/
def readAt (c : Cache) (clock : Clock) (key : String) : Option Answer :=
  ((fresh c.mounts c.stores c.interval c.timeout clock).serve (.read key) .never).answer? 0

/-- The mounts with the places and the collections of their stores. -/
def bindings (c : Cache) : List (String × Option (Place × String)) :=
  c.mounts.mounts.map fun mount => (mount.1, c.stores[mount.2]?.bind Store.home?)

/-- The stored form of a key with the place and the collection that it is read from. -/
def leadsTo (c : Cache) (key : String) : Except CacheError (String × Option (Place × String)) :=
  (c.mounts.place key).map fun found => (found.1, c.stores[found.2]?.bind Store.home?)

variable {c c' : Cache}

private theorem lookup_map {α β : Type} (f : α → β) (l : List (String × α)) (key : String) :
    (l.map fun entry => (entry.1, f entry.2)).lookup key = (l.lookup key).map f := by
  induction l with
  | nil => rfl
  | cons entry rest ih =>
    rw [List.map_cons, List.lookup_cons, List.lookup_cons, ih]
    split <;> rfl

private theorem lookup_bindings (c : Cache) (path : String) :
    c.bindings.lookup path = (c.mounts.byPath.get? path).map fun s => c.stores[s]?.bind Store.home? :=
  lookup_map (fun s => c.stores[s]?.bind Store.home?) c.mounts.byPath.toList path

theorem bindings_runs (h : c.LocksSound) (hr : c.Runs c') : c'.bindings = c.bindings := by
  obtain ⟨events, rfl⟩ := hr
  have hbare (stores : List Store) (s : Nat) :
      stores[s]?.bind Store.home? = (stores.map Store.bare)[s]?.bind Store.home? := by
    rw [List.getElem?_map]
    cases stores[s]? with
    | none => rfl
    | some store => exact (Store.home?_bare store).symm
  have hhome (s : Nat) : (c.steps events).stores[s]?.bind Store.home? = c.stores[s]?.bind Store.home? := by
    rw [hbare, h.bare_steps, ← hbare]
  simp only [bindings, h.mounts_steps, hhome]

/-- Where a key leads to hangs on the bindings alone. -/
theorem leadsTo_eq (h : c'.bindings = c.bindings) (key : String) : c'.leadsTo key = c.leadsTo key := by
  have hresolve (c : Cache) (stored : String) :
      (c.mounts.resolve stored).map (fun mount => (stored, c.stores[mount.2]?.bind Store.home?)) =
        match c.bindings.lookup (leadingSegment stored) with
        | some home => .ok (stored, home)
        | none => .error (.noMount stored) := by
    rw [lookup_bindings]
    cases hget : c.mounts.byPath.get? (leadingSegment stored) with
    | none => rw [MountTable.resolve_of_none hget]; rfl
    | some s => rw [MountTable.resolve_of_some hget]; rfl
  unfold leadsTo
  cases hkey : normalizeKey key with
  | error fault =>
    unfold MountTable.place
    rw [hkey]
    rfl
  | ok stored =>
    have hplace (c : Cache) :
        (c.mounts.place key).map (fun found => (found.1, c.stores[found.2]?.bind Store.home?)) =
        (c.mounts.resolve stored).map (fun mount => (stored, c.stores[mount.2]?.bind Store.home?)) := by
      rw [MountTable.place_of_normalized hkey]
      cases c.mounts.resolve stored <;> rfl
    rw [hplace, hplace, hresolve, hresolve, h]

private theorem route_read (mounts : MountTable Nat) (clock : Clock) (key : String) :
    (Request.read key).route mounts clock =
      match mounts.place key with
      | .error e => .error (.failed e)
      | .ok (stored, s) => .ok (s, .get stored) := rfl

/-- If all mounts lead to collections, so does a key that has a mount. -/
private theorem place_documents (hall : ∀ binding ∈ c.bindings, binding.2.isSome) {key stored : String}
    {s : Nat}
    (hplace : c.mounts.place key = .ok (stored, s)) :
    ∃ place collection opened documents,
    c.stores[s]? = some (.document place collection opened documents) := by
  obtain ⟨-, path, hresolve⟩ := MountTable.place_eq_ok hplace
  obtain ⟨-, hm⟩ := MountTable.resolve_eq_ok_iff.1 hresolve
  have hhome := hall _ (List.mem_map_of_mem hm)
  obtain ⟨home, hhome⟩ := Option.isSome_iff_exists.1 hhome
  obtain ⟨store, hs, hstore⟩ := Option.bind_eq_some_iff.1 hhome
  cases store with
  | document place collection opened documents => exact ⟨place, collection, opened, documents, hs⟩
  | _ => cases hstore

/-- A read is answered at once, if it is refused, or it finds the documents of the collection that its key
leads to. -/
theorem readAt_cases (c : Cache) (hall : ∀ binding ∈ c.bindings, binding.2.isSome) (clock : Clock)
    (key : String) :
    (∃ error, c.leadsTo key = .error error ∧ c.readAt clock key = some (.failed error)) ∨
    ∃ stored place collection opened documents, c.leadsTo key = .ok (stored, some (place, collection)) ∧
      Store.document place collection opened documents ∈ c.stores ∧
      c.readAt clock key = some (documents.answer clock stored) := by
  have hroute := route_read c.mounts clock key
  have hcall : (Request.read key).IsCall := trivial
  obtain ⟨answer, shelves, hserved, heq⟩ :=
    serve_call (fresh c.mounts c.stores c.interval c.timeout clock) .never hcall fun s visit hok => by
      replace hok := hroute.symm.trans hok
      cases hplace : c.mounts.place key with
      | error e => rw [hplace] at hok; cases hok
      | ok found =>
        rw [hplace] at hok
        cases hok
        obtain ⟨place, collection, opened, documents, hs⟩ := place_documents hall hplace
        refine ⟨{ store := .document place collection opened documents }, ?_, trivial, rfl, rfl⟩
        simp [fresh, hs]
  have hread : c.readAt clock key = some answer := by
    unfold readAt
    rw [heq]
    exact answer?_answered shelves
  rw [hread]
  cases hserved with
  | refused hrefused =>
    left
    replace hrefused := hroute.symm.trans hrefused
    cases hplace : c.mounts.place key with
    | error e =>
      rw [hplace] at hrefused
      cases hrefused
      exact ⟨e, by rw [leadsTo, hplace]; rfl, rfl⟩
    | ok => rw [hplace] at hrefused; cases hrefused
  | cancelled _ hc => cases hc
  | @served s visit shelf answer content hok _ hs hv =>
    right
    replace hok := hroute.symm.trans hok
    cases hplace : c.mounts.place key with
    | error e => rw [hplace] at hok; cases hok
    | ok found =>
      rw [hplace] at hok
      cases hok
      obtain ⟨place, collection, opened, documents, hs'⟩ := place_documents hall hplace
      obtain ⟨store, hstore, rfl⟩ := getElem?_fresh hs
      obtain rfl := Option.some.inj (hs'.symm.trans hstore)
      refine ⟨found.1, place, collection, opened, documents, ?_, List.mem_of_getElem? hs',
        congrArg some hv.answer_eq⟩
      rw [leadsTo, hplace]
      simp [Except.map, hs', Store.home?]

/-- A read that has not to wait is answered as if no other job were under way. -/
theorem serve_read (c : Cache) {token : Token} (hc : c.isCancelled token = false) (key : String)
    (hclear : ∀ store visit, (Request.read key).route c.mounts c.clock = .ok (store, visit) →
      ∃ shelf, c.shelves[store]? = some shelf ∧ shelf.Open) :
    (c.serve (.read key) token).answer? c.jobs.length = c.readAt c.clock key := by
  have hcall : (Request.read key).IsCall := trivial
  obtain ⟨answer, shelves, hserved, heq⟩ := serve_call c token hcall hclear
  obtain ⟨answer', shelves', hserved', heq'⟩ :=
    serve_call (fresh c.mounts c.stores c.interval c.timeout c.clock) .never hcall fun s visit hok => by
      obtain ⟨shelf, hs, ho⟩ := hclear s visit hok
      refine ⟨{ store := shelf.store }, ?_, ho.plain, rfl, rfl⟩
      simp [fresh, getElem?_stores, hs]
  have hanswer : answer' = answer := by
    cases hserved with
    | refused hroute =>
      cases hserved' with
      | refused hroute' => cases hroute.symm.trans hroute'; rfl
      | cancelled _ hc' => cases hc'
      | served hroute' => cases hroute.symm.trans hroute'
    | cancelled _ hc' => rw [hc] at hc'; cases hc'
    | served hroute _ hs hv =>
      cases hserved' with
      | refused hroute' => cases hroute.symm.trans hroute'
      | cancelled _ hc' => cases hc'
      | served hroute' _ hs' hv' =>
        cases hroute.symm.trans hroute'
        obtain ⟨store, hstore, rfl⟩ := getElem?_fresh hs'
        rw [store_of_shelf hs] at hstore
        cases hstore
        exact (hv.unique hv').1
  unfold readAt
  rw [heq, answer?_answered, heq']
  exact congrArg some hanswer.symm

end Cache

end RoutedCache

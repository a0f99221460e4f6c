import RoutedCache.Proofs.Cache.Trail

/-!
# Accounts

At every moment of a run the ledger accounts for the cache (`Account`): what the keys hold follows from it, each
job has made the calls of its trail and no others, and the counter of burned records is the number of reads that
were answered with such a record.  No store is asked to be reliable: a call that fails is in the ledger with
its fault.
-/

namespace RoutedCache

/-- What a key of a store holds. -/
def heldIn (shelves : List Shelf) (store : Nat) (key : String) : Option KeyRecord :=
  shelves[store]?.bind (·.store.find? key)

/-- The calls of a job stand together among the calls of one store, and the job has made no others. -/
structure Ledger.Placed (ledger : Ledger) (id : JobId) (store : Nat) (later : List Made)
    (mine : List (StoreCall × Reply)) (before : List Made) : Prop where
  calls : ledger store = later ++ mine.map (fun m => ⟨id, m.1, m.2⟩) ++ before
  only : ∀ s, ∀ made ∈ if s = store then later ++ before else ledger s, made.job ≠ id

/-- Where a job stands is what the ledger says about its calls. -/
inductive Job.Accounted (ledger : Ledger) (id : JobId) (job : Job) : Prop
  | call {store later mine before} (hc : job.request.IsCall) (ht : Trail job.request job.stage mine)
      (hp : ledger.Placed id store later mine before)
      (hi : ∀ s, job.stage.inside? = some s → s = store ∧ later = [])
  | other (hc : ¬job.request.IsCall) (hs : OtherStage job.request job.stage)

/-- The request has the call among its own. -/
def Request.Lists (request : Request) (call : StoreCall) : Prop :=
  ∃ store calls, request = .calls store calls ∧ call ∈ calls

/-- A read that was answered with a record to be read once. -/
def Job.burned (job : Job) : Bool :=
  match job.request, job.stage with
  | .read _, .finished (.record record) => record.metadata.burnAfterReading
  | _, _ => false

/-- A record to be read once was answered. -/
def Stage.burnt : Stage → Bool
  | .finished (.record record) => record.metadata.burnAfterReading
  | _ => false

structure Account (held : Nat → String → Option KeyRecord) (c : Cache) (ledger : Ledger) : Prop where
  locks : c.LocksSound
  content : ∀ s key, heldIn c.shelves s key = found (held s) key (ledger s)
  consistent : ∀ s, Consistent (held s) (ledger s)
  jobs : ∀ (id : JobId) (job : Job), c.jobs[id]? = some job → job.Accounted ledger id
  makers : ∀ s, ∀ made ∈ ledger s, ∃ job, c.jobs[made.job]? = some job ∧
    ∀ entry, made.call = .put entry → job.request.IsCall ∨ job.request.Lists made.call
  burned : c.counters.burned = c.jobs.countP Job.burned

/-! ### Places in the ledger -/

namespace Ledger

variable {ledger : Ledger} {id j : JobId} {store : Nat} {later before : List Made}
  {mine : List (StoreCall × Reply)}

theorem mem_add {s : Nat} {made made' : Made} (h : made' ∈ ledger.add store made s) :
    s = store ∧ made' = made ∨ made' ∈ ledger s := by
  unfold add at h
  split at h
  next heq => exact (List.mem_cons.1 h).imp (⟨heq, ·⟩) id
  next => exact .inr h

namespace Placed

/-- Whatever is in the ledger for the job is one of its calls. -/
theorem mem (h : ledger.Placed id store later mine before) {s : Nat} {made : Made} (hm : made ∈ ledger s)
    (hid : made.job = id) : s = store ∧ (made.call, made.reply) ∈ mine := by
  have honly := h.only s
  by_cases hs : s = store
  · subst hs
    rw [if_pos rfl] at honly
    rw [h.calls] at hm
    simp only [List.append_assoc, List.mem_append, List.mem_map] at hm honly
    rcases hm with hm | ⟨m, hm, rfl⟩ | hm
    · exact absurd hid (honly made (.inl hm))
    · exact ⟨rfl, hm⟩
    · exact absurd hid (honly made (.inr hm))
  · rw [if_neg hs] at honly
    exact absurd hid (honly made hm)

/-- A job without calls may be placed in any store. -/
theorem of_nil (h : ledger.Placed id store later [] before) (s : Nat) :
    ledger.Placed id s [] [] (ledger s) where
  calls := rfl
  only s' made hm hid := by
    have hmem : made ∈ ledger s' := by
      split at hm
      next heq => rw [heq]; exact hm
      next => exact hm
    exact absurd (h.mem hmem hid).2 List.not_mem_nil

theorem of_lacks (h : ∀ s, ∀ made ∈ ledger s, made.job ≠ id) : ledger.Placed id 0 [] [] (ledger 0) where
  calls := rfl
  only s made hm := by
    split at hm
    next heq => exact h 0 made hm
    next => exact h s made hm

/-- The job makes one more call. -/
theorem add (h : ledger.Placed id store [] mine before) (call : StoreCall) (reply : Reply) :
    (ledger.add store ⟨id, call, reply⟩).Placed id store [] ((call, reply) :: mine) before where
  calls := by
    show (if store = store then _ else _) = _
    rw [if_pos rfl, h.calls]
    rfl
  only s made hm := by
    refine h.only s made ?_
    split at hm
    next hs => rwa [if_pos hs]
    next hs =>
      rw [if_neg hs]
      exact (mem_add hm).resolve_left fun h => hs h.1

/-- Another job makes a call. -/
theorem add_other (h : ledger.Placed j store later mine before) (hne : id ≠ j) (s : Nat) (call : StoreCall)
    (reply : Reply) : (ledger.add s ⟨id, call, reply⟩).Placed j store
      (if store = s then ⟨id, call, reply⟩ :: later else later) mine before where
  calls := by
    show (if store = s then _ else _) = _
    rw [h.calls]
    split <;> rfl
  only s' made hm := by
    split at hm
    next heq =>
      have honly := h.only s'
      rw [if_pos heq] at honly
      split at hm
      next =>
        rcases List.mem_cons.1 hm with rfl | hm
        · exact hne
        · exact honly made hm
      next => exact honly made hm
    next hs' =>
      rcases mem_add hm with ⟨-, rfl⟩ | hm
      · exact hne
      · exact h.only s' made (by rw [if_neg hs']; exact hm)

end Placed

end Ledger

/-! ### What the keys hold -/

theorem heldIn_set {shelves : List Shelf} {store : Nat} {shelf shelf' : Shelf}
    (hs : shelves[store]? = some shelf) (s : Nat) (key : String) :
    heldIn (shelves.set store shelf') s key =
      if s = store then shelf'.store.find? key else heldIn shelves s key := by
  have hlt := (List.getElem?_eq_some_iff.1 hs).1
  unfold heldIn
  rw [List.getElem?_set]
  by_cases h : s = store
  · subst h
    simp [hlt]
  · simp [h, Ne.symm h]

theorem heldIn_eq {shelves : List Shelf} {store : Nat} {shelf : Shelf} (hs : shelves[store]? = some shelf) :
    heldIn shelves store = shelf.store.find? := by
  funext key
  simp [heldIn, hs]

/-- The shelf has another lock or other outages, and nothing else is different. -/
theorem heldIn_set_same {shelves : List Shelf} {store : Nat} {shelf shelf' : Shelf}
    (hs : shelves[store]? = some shelf) (hstore : shelf'.store = shelf.store) :
    heldIn (shelves.set store shelf') = heldIn shelves := by
  funext s key
  rw [heldIn_set hs, hstore]
  split
  next h => rw [h, heldIn_eq hs]
  next => rfl

/-- What the keys hold after a call is what the reply to it says; without a call nothing changes. -/
inductive Keeps (held : Nat → String → Option KeyRecord) (held' : Nat → String → Option KeyRecord) :
    Option (Nat × StoreCall × Reply) → Prop
  | same (h : held' = held) : Keeps held held' none
  | call {store call reply} (hf : reply.Fair (held store) call)
      (h : ∀ s key, held' s key =
        if s = store then afterCall (held store key) key call reply else held s key) :
      Keeps held held' (some (store, call, reply))

variable {c : Cache} {id : JobId} {job : Job} {old new : Stage} {shelves : List Shelf}

namespace Keeps

private theorem perform {store : Nat} {shelf shelf' : Shelf} {visit : Visit} {call : StoreCall}
    (hs : c.shelves[store]? = some shelf) (hstore : shelf'.store = shelf.store) (hc : visit.call? = some call) :
    Keeps (heldIn c.shelves) (heldIn (c.shelves.set store (shelf'.perform call).2))
      (Stage.returned store visit (shelf'.perform call).1).made? := by
  rw [Stage.made?, hc]
  refine .call ?_ fun s key => ?_
  · rw [heldIn_eq hs, ← hstore]
    exact Shelf.fair_perform shelf' call
  · rw [heldIn_set hs, heldIn_eq hs, ← hstore, Shelf.find?_perform]

private theorem visits {store : Nat} {shelf shelf' shelf'' : Shelf} {visit : Visit}
    (hs : c.shelves[store]? = some shelf) (hv : Visits c id store shelf' visit new shelf'')
    (hstore : shelf'.store = shelf.store) :
    Keeps (heldIn c.shelves) (heldIn (c.shelves.set store shelf'')) new.made? := by
  cases hv with
  | hold => exact .same (heldIn_set_same hs hstore)
  | pause => exact .same (heldIn_set_same hs hstore)
  | call hc => exact perform hs hstore hc
  | done => exact .same (heldIn_set_same hs hstore)

private theorem made?_stage (turn : Visit.Turn) : turn.stage.made? = none := by
  cases turn <;> rfl

theorem of_transition (ht : Transition c id job old new shelves) :
    Keeps (heldIn c.shelves) (heldIn shelves) new.made? := by
  cases ht with
  | aside ha => cases ha <;> exact .same rfl
  | refuse _ hs =>
    rw [made?_stage]
    exact .same (heldIn_set_same hs rfl)
  | cancel _ hs =>
    rw [made?_stage]
    exact .same (heldIn_set_same hs rfl)
  | queue _ hs => exact .same (heldIn_set_same hs rfl)
  | enter _ hs _ _ _ hv => exact visits hs hv rfl
  | grant hs _ _ hv => exact visits hs hv rfl
  | call hs hc => exact perform hs rfl hc
  | stay hs _ hv => exact visits hs hv rfl
  | leave _ hs =>
    rw [made?_stage]
    exact .same (heldIn_set_same hs rfl)

end Keeps

theorem Keeps.account {held held' start : Nat → String → Option KeyRecord} {ledger : Ledger}
    {made : Option (Nat × StoreCall × Reply)} (h : Keeps held held' made)
    (hcontent : ∀ s key, held s key = found (start s) key (ledger s))
    (hconsistent : ∀ s, Consistent (start s) (ledger s)) :
    (∀ s key, held' s key = found (start s) key (ledger.enter id made s)) ∧
      ∀ s, Consistent (start s) (ledger.enter id made s) := by
  cases h with
  | same h => exact ⟨h ▸ hcontent, hconsistent⟩
  | @call store call reply hf h =>
    refine ⟨fun s key => ?_, fun s => ?_⟩
    · show held' s key = found (start s) key (if s = store then _ else _)
      rw [h]
      split
      next hs => rw [hcontent, ← hs]; rfl
      next => exact hcontent s key
    · show Consistent (start s) (if s = store then _ else _)
      split
      next hs =>
        refine ⟨?_, hconsistent s⟩
        rintro key entry rfl rfl
        rw [← hcontent, hs]
        rcases hf with heq | ⟨fault, heq⟩
        · exact Reply.found.inj heq
        · cases heq
      next => exact hconsistent s

/-! ### Jobs -/

theorem Stage.inside?_of_made? {stage : Stage} {store : Nat} {call : StoreCall} {reply : Reply}
    (h : stage.made? = some (store, call, reply)) : stage.inside? = some store := by
  cases stage with
  | returned store' visit reply' =>
    simp only [made?, Option.map_eq_some_iff] at h
    obtain ⟨call', -, heq⟩ := h
    cases heq
    rfl
  | _ => cases h

namespace Job.Accounted

variable {ledger : Ledger} {other : Job} {j : JobId}

/-- The job itself goes on. -/
theorem own (h : job.Accounted ledger id) (ht : Transition c id job job.stage new shelves) :
    { job with stage := new }.Accounted (ledger.enter id new.made?) id := by
  cases h with
  | other hc hs => exact .other hc (hs.step hc ht)
  | @call store later mine before hc htrail hp hi =>
    have htrail' := htrail.step hc ht
    have hcentre : ∀ s, new.inside? = some s → ∃ before', ledger.Placed id s [] mine before' := by
      intro s hs
      rcases ht.inside.2 s hs with hnone | hsome
      · obtain rfl := htrail.eq_nil hnone ht.inside.1
        exact ⟨_, hp.of_nil s⟩
      · obtain ⟨rfl, rfl⟩ := hi s hsome
        exact ⟨before, hp⟩
    cases hmade : new.made? with
    | none =>
      rw [Stage.latest, hmade] at htrail'
      cases hin : new.inside? with
      | none => exact .call hc htrail' hp fun s (hs : new.inside? = some s) => by rw [hin] at hs; cases hs
      | some s =>
        obtain ⟨before', hp'⟩ := hcentre s hin
        refine .call hc htrail' hp' fun s' (hs : new.inside? = some s') => ?_
        rw [hin] at hs
        exact ⟨(Option.some.inj hs).symm, rfl⟩
    | some made =>
      obtain ⟨s, call, reply⟩ := made
      have hin := Stage.inside?_of_made? hmade
      obtain ⟨before', hp'⟩ := hcentre s hin
      rw [Stage.latest, hmade] at htrail'
      refine .call hc htrail' (hp'.add call reply) fun s' (hs : new.inside? = some s') => ?_
      rw [hin] at hs
      exact ⟨(Option.some.inj hs).symm, rfl⟩

/-- Another job goes on: nobody makes a call in a store in which this job is at work. -/
theorem frame (h : other.Accounted ledger j) (hne : id ≠ j) {made : Option (Nat × StoreCall × Reply)}
    (hout : ∀ s call reply, made = some (s, call, reply) → other.stage.inside? ≠ some s) :
    other.Accounted (ledger.enter id made) j := by
  cases h with
  | other hc hs => exact .other hc hs
  | call hc htrail hp hi =>
    cases made with
    | none => exact .call hc htrail hp hi
    | some made =>
      obtain ⟨s, call, reply⟩ := made
      refine .call hc htrail (hp.add_other hne s call reply) fun s' hs' => ?_
      obtain ⟨rfl, rfl⟩ := hi s' hs'
      refine ⟨rfl, if_neg ?_⟩
      rintro rfl
      exact hout s' call reply rfl hs'

/-- Only reads are answered with records. -/
theorem isRead (h : job.Accounted ledger id) {record : Record} (hs : job.stage = .finished (.record record)) :
    ∃ key, job.request = .read key := by
  cases h with
  | other _ hs' =>
    rw [hs] at hs'
    exact absurd rfl (hs'.2 record)
  | call _ htrail =>
    rw [hs] at htrail
    cases htrail with
    | finished hout =>
      cases hout with
      | read hr => exact hr
      | burned hr => exact hr
      | refused hp => exact absurd rfl (hp.2 record)
      | missed hp => exact absurd rfl (hp.2 record)

theorem burned_eq (h : job.Accounted ledger id) : job.burned = job.stage.burnt := by
  unfold Stage.burnt
  split
  next record hs =>
    obtain ⟨key, hr⟩ := h.isRead hs
    simp [burned, hr, hs]
  next hs =>
    unfold burned
    split
    next record _ hs' => exact absurd hs' (hs record)
    next => rfl

end Job.Accounted

theorem Job.burned_of_not_over (h : ∀ answer, job.stage ≠ .finished answer) : job.burned = false := by
  unfold burned
  split
  next hs => exact absurd hs (h _)
  next => rfl

/-! ### Events -/

private theorem countP_modify {α : Type} {p : α → Bool} {f : α → α} {l : List α} {i : Nat} {a : α}
    (h : l[i]? = some a)
    (ha : p a = false) : (l.modify i f).countP p = l.countP p + if p (f a) then 1 else 0 := by
  induction l generalizing i with
  | nil => cases h
  | cons b l ih =>
    cases i with
    | zero =>
      cases h
      simp [List.countP_cons, ha]
    | succ i =>
      rw [List.modify_succ_cons, List.countP_cons, List.countP_cons, ih h]
      omega

private theorem burned_tally (counters : Counters) (hold : ∀ answer, old ≠ .finished answer) :
    (counters.tally old new).burned = counters.burned + if new.burnt then 1 else 0 := by
  have hcount (answer : Answer) :
      (counters.count answer).burned = counters.burned + if (Stage.finished answer).burnt then 1 else 0 := by
    cases answer with
    | failed error => cases error <;> rfl
    | _ => rfl
  cases old with
  | finished answer => exact absurd rfl (hold answer)
  | between =>
    cases new with
    | finished answer => cases answer <;> exact hcount _
    | _ => rfl
  | _ =>
    cases new with
    | finished answer => cases answer <;> exact hcount _
    | _ => rfl

theorem Job.Accounted.maker {ledger : Ledger} (h : job.Accounted ledger id) {s : Nat} {entry : KeyRecord}
    {reply : Reply} (hm : job.stage.made? = some (s, .put entry, reply)) :
    job.request.IsCall ∨ job.request.Lists (.put entry) := by
  cases h with
  | call hc => exact .inl hc
  | other hc hs =>
    right
    unfold Stage.made? at hm
    split at hm
    next store visit reply' hstage =>
      rw [hstage] at hs
      simp only [Option.map_eq_some_iff] at hm
      obtain ⟨call, hcall, heq⟩ := hm
      cases heq
      cases visit with
      | calls left replies =>
        obtain ⟨store', calls, hr, hall⟩ := hs
        exact ⟨store', calls, hr, hall _ (List.mem_of_head? hcall)⟩
      | list => cases hcall
      | evict => cases hcall
      | hold => cases hcall
      | _ => exact hs.elim
    next => cases hm

theorem Ledger.mem_enter {ledger : Ledger} {made : Option (Nat × StoreCall × Reply)} {s : Nat} {made' : Made}
    (h : made' ∈ ledger.enter id made s) :
    made' ∈ ledger s ∨ made'.job = id ∧ made = some (s, made'.call, made'.reply) := by
  cases made with
  | none => exact .inl h
  | some made =>
    rcases mem_add h with ⟨rfl, rfl⟩ | h
    · exact .inr ⟨rfl, rfl⟩
    · exact .inl h

namespace Account

variable {held : Nat → String → Option KeyRecord} {ledger : Ledger}

/-- A job goes on, given what becomes of the locks, of the keys and of the job itself. -/
private theorem settle (h : Account held c ledger) (hj : c.jobs[id]? = some job)
    (hold : ∀ answer, job.stage ≠ .finished answer) {cancelled : List Token} {sweeper : Option JobId}
    (hlocks : ({ c with shelves, cancelled, sweeper }.settle id job.stage new).LocksSound)
    (hkeeps : Keeps (heldIn c.shelves) (heldIn shelves) new.made?)
    (hjob : { job with stage := new }.Accounted (ledger.enter id new.made?) id) :
    Account held ({ c with shelves, cancelled, sweeper }.settle id job.stage new)
      (ledger.enter id new.made?) := by
  have hjobs := Cache.getElem?_settle hj shelves cancelled sweeper job.stage new
  have hself := (hjobs id).trans (if_pos rfl)
  obtain ⟨hcontent, hconsistent⟩ := hkeeps.account h.content h.consistent
  refine ⟨hlocks, hcontent, hconsistent, fun j other hj' => ?_, fun s made hm => ?_, ?_⟩
  · rw [hjobs] at hj'
    split at hj'
    next heq =>
      cases hj'
      rw [heq]
      exact hjob
    next hne =>
      -- A call comes from the job at work in the store alone, so no other job has its calls parted by it.
      refine (h.jobs j other hj').frame (Ne.symm hne) fun s call reply hmade hin => hne ?_
      refine hlocks.exclusive (s := s) ?_ ?_
      · rw [Cache.inside?_eq ((hjobs j).trans (by rw [if_neg hne, hj'])), hin]
      · rw [Cache.inside?_eq hself]
        exact Stage.inside?_of_made? hmade
  · rcases Ledger.mem_enter hm with hm | ⟨hid, hmade⟩
    · obtain ⟨maker, hmaker, hput⟩ := h.makers s made hm
      by_cases heq : made.job = id
      · rw [heq] at hmaker ⊢
        rw [hj] at hmaker
        cases hmaker
        exact ⟨_, hself, hput⟩
      · exact ⟨maker, by rw [hjobs, if_neg heq, hmaker], hput⟩
    · refine ⟨_, by rw [hid]; exact hself, fun entry hcall => ?_⟩
      rw [hcall] at hmade ⊢
      exact hjob.maker hmade
  · show (c.counters.tally job.stage new).burned = (c.jobs.modify id _).countP Job.burned
    rw [burned_tally c.counters hold, countP_modify hj (Job.burned_of_not_over hold), h.burned, hjob.burned_eq]

private theorem start (h : Account held c ledger) (request : Request) (token : Token) :
    Account held (c.step (.start request token)) ledger := by
  -- The number of the job is new to the ledger, whose calls have makers among the jobs so far.
  have hnew : ∀ s, ∀ made ∈ ledger s, made.job ≠ c.jobs.length := by
    intro s made hm heq
    obtain ⟨job, hj, -⟩ := h.makers s made hm
    rw [heq, List.getElem?_eq_none (Nat.le_refl _)] at hj
    cases hj
  refine ⟨h.locks.step _, h.content, h.consistent, fun (j : Nat) other hj => ?_, fun s made hm => ?_, ?_⟩
  · have hjobs : (c.jobs ++ [⟨request, token, .ready⟩])[j]? = some other := hj
    rw [List.getElem?_append] at hjobs
    split at hjobs
    next => exact h.jobs j other hjobs
    next hge =>
      obtain ⟨hlt, rfl⟩ := List.getElem?_eq_some_iff.1 hjobs
      obtain rfl : j = c.jobs.length := by
        rw [List.length_singleton] at hlt
        omega
      rw [List.getElem_singleton]
      by_cases hc : request.IsCall
      · exact .call hc .ready (.of_lacks hnew) nofun
      · exact .other hc trivial
  · obtain ⟨maker, hmaker, hput⟩ := h.makers s made hm
    have hlt := (List.getElem?_eq_some_iff.1 hmaker).1
    exact ⟨maker, (List.getElem?_append_left hlt).trans hmaker, hput⟩
  · show c.counters.burned = (c.jobs ++ [(⟨request, token, .ready⟩ : Job)]).countP Job.burned
    rw [List.countP_append, h.burned]
    cases request <;> rfl

private theorem run (h : Account held c ledger) (id : JobId) :
    Account held (c.run id) (ledger.note c (.run id)) := by
  cases hj : c.jobs[id]? with
  | none =>
    have hrun : c.run id = c := by simp only [Cache.run, hj]
    have hnote : ledger.note c (.run id) = ledger := by simp [Ledger.note, hrun, Cache.stage?, hj, Ledger.enter]
    rw [hrun, hnote]
    exact h
  | some job =>
    rcases h.locks.run_cases hj with ⟨hrun, hstage⟩ | ⟨new, shelves, cancelled, sweeper, ht, -, hrun⟩
    · have hmade : job.stage.made? = none := by
        cases hs : job.stage with
        | returned store visit reply => exact absurd hs (hstage store visit reply)
        | _ => rfl
      have hnote : ledger.note c (.run id) = ledger := by
        rw [Ledger.note, hrun, Cache.stage?_eq hj, Option.bind_some, hmade]
        rfl
      rw [hrun, hnote]
      exact h
    · have hnote : ledger.note c (.run id) = ledger.enter id new.made? := by
        rw [Ledger.note, hrun, Cache.stage?_settle hj, if_pos rfl, Option.bind_some]
      rw [hrun, hnote]
      exact h.settle hj ht.inside.1 (h.locks.transition hj ht) (.of_transition ht) ((h.jobs id job hj).own ht)

private theorem expire (h : Account held c ledger) (id : JobId) : Account held (c.expire id) ledger := by
  rcases h.locks.expire_cases id with hexpire | ⟨job, new, shelves, hj, he, hexpire⟩
  · rw [hexpire]
    exact h
  · rw [hexpire]
    have hlocks := h.locks.expiry hj he
    have hjob := h.jobs id job hj
    generalize hold : job.stage = old at he
    cases he with
    | skip hk _ hs =>
      subst hold
      refine h.settle hj ?_ hlocks (.same (heldIn_set_same hs rfl)) ?_
      · intro answer hover
        rw [hover] at hk
        cases hk
      · cases hjob with
        | other hc => exact .other hc trivial
        | call _ htrail =>
          rw [htrail.sweeping?] at hk
          cases hk

/-- Every event keeps the account. -/
theorem step (h : Account held c ledger) (event : Event) :
    Account held (c.step event) (ledger.note c event) := by
  cases event with
  | start request token => exact h.start request token
  | run id => exact h.run id
  | expire id => exact h.expire id
  | complete store =>
    have hlocks := h.locks.step (.complete store)
    rcases Cache.complete_cases c store with heq | ⟨shelf, hs, heq⟩
    · rw [heq]
      exact h
    · rw [heq] at hlocks ⊢
      have hheld : heldIn (c.shelves.set store shelf.released) = heldIn c.shelves := heldIn_set_same hs rfl
      exact ⟨hlocks, fun s key => (congrFun (congrFun hheld s) key).trans (h.content s key), h.consistent, h.jobs,
        h.makers, h.burned⟩
  | cancel token =>
    have hlocks := h.locks.step (.cancel token)
    by_cases hnever : token = .never
    · have hstep : c.step (.cancel token) = c := by simp [Cache.step, Cache.cancel, hnever]
      rw [hstep]
      exact h
    · have hstep : c.step (.cancel token) = { c with cancelled := token :: c.cancelled } := by
        simp [Cache.step, Cache.cancel, hnever]
      rw [hstep] at hlocks ⊢
      exact ⟨hlocks, h.content, h.consistent, h.jobs, h.makers, h.burned⟩
  | elapse ms => exact ⟨h.locks.step _, h.content, h.consistent, h.jobs, h.makers, h.burned⟩
  | setClock t => exact ⟨h.locks.step _, h.content, h.consistent, h.jobs, h.makers, h.burned⟩

theorem steps (h : Account held c ledger) (events : List Event) :
    Account held (c.steps events) (ledger.along c events) := by
  induction events generalizing c ledger with
  | nil => exact h
  | cons event events ih => exact ih (h.step event)

end Account

end RoutedCache

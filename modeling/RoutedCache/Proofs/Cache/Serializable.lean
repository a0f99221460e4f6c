import RoutedCache.Proofs.Cache.JobSound

/-!
# Serializability in the order of the locks

Over stores in memory and faithful document stores, whatever the jobs of a cache do under whatever schedule is
what their stays in the stores do one by one, in the order in which they obtained the locks
(`Cache.serializable`): the contents are those of the replay, and every call is answered as its stay is.
-/

namespace RoutedCache

/-- The stores serve every request, from memory or from a faithful collection. -/
def Prompt (shelves : List Shelf) : Prop :=
  ∀ (s : Nat) (shelf : Shelf), shelves[s]? = some shelf → shelf.outages = [] ∧ shelf.store.Faithful

/-- The cache is what the replay of its journal makes of the records at the start. -/
structure Serial (start : Nat → KeyMap Record) (c : Cache) (journal : Journal) : Prop where
  locks : c.LocksSound
  prompt : Prompt c.shelves
  content : ∀ s, c.records s = replay (start s) (journal.stays s)
  jobs : ∀ id job, c.jobs[id]? = some job → JobSound c.mounts start journal id job
  serves : ∀ s, ∀ stay ∈ journal.stays s, ∃ job, c.jobs[stay.job]? = some job ∧
    stay.act.Serves c.mounts (journal.started stay.job) job.request s

/-! ### A transition -/

theorem recordsAt_set {shelves : List Shelf} {store : Nat} (hlt : store < shelves.length) (shelf : Shelf)
    (s : Nat) :
    recordsAt (shelves.set store shelf) s = if s = store then shelf.store.records else recordsAt shelves s := by
  unfold recordsAt
  rw [List.getElem?_set]
  by_cases hs : store = s
  · subst hs
    rw [if_pos rfl, if_pos hlt, if_pos rfl]
  · rw [if_neg hs, if_neg (Ne.symm hs)]

theorem Prompt.set {shelves : List Shelf} (h : Prompt shelves) (store : Nat) {shelf : Shelf}
    (ho : shelf.outages = []) (hf : shelf.store.Faithful) : Prompt (shelves.set store shelf) := by
  intro s other hs
  rcases Shelf.set_cases hs with ⟨-, rfl⟩ | ⟨-, hs⟩
  · exact ⟨ho, hf⟩
  · exact h s other hs

/-- In a faithful store a visit waits with the lock, makes its call on the records or is done. -/
theorem visits_faithful {c : Cache} {id : JobId} {store : Nat} {shelf shelf' : Shelf} {visit : Visit}
    {next : Stage} (hv : Visits c id store shelf visit next shelf') (ho : shelf.outages = [])
    (hf : shelf.store.Faithful) :
    shelf'.outages = [] ∧ shelf'.store.Faithful ∧
      ((∃ ms due, visit = .hold ms ∧ next = .holding store due ∧ shelf'.store = shelf.store) ∨
      (∃ call, visit.call? = some call ∧
        next = .returned store visit (performEntries shelf.store.records call).1 ∧
        shelf'.store.records = (performEntries shelf.store.records call).2) ∨
      ∃ replies, visit = .calls [] replies ∧ next = .finished (.replies replies) ∧
        shelf'.store = shelf.store) := by
  cases hv with
  | hold => exact ⟨ho, hf, .inl ⟨_, _, rfl, rfl, rfl⟩⟩
  | pause _ hd => exact absurd (hf.delay _) hd
  | @call _ call hcall _ =>
    have hperform : shelf.perform call =
        ((shelf.store.perform call).1, { shelf with store := (shelf.store.perform call).2 }) := by
      simp [Shelf.perform, Shelf.outage?, Shelf.requested, ho]
    obtain ⟨hreply, hrecords⟩ := hf.perform_records call
    rw [hperform, hreply]
    exact ⟨ho, hf.perform call, .inr (.inl ⟨call, hcall, rfl, hrecords⟩)⟩
  | done => exact ⟨ho, hf, .inr (.inr ⟨_, rfl, rfl, rfl⟩)⟩

variable {start : Nat → KeyMap Record} {c : Cache} {journal journal' : Journal} {id : JobId} {job : Job}

namespace Serial

/-- A transition of a job, given what becomes of the job itself and of the records. -/
theorem transition (h : Serial start c journal) (hj : c.jobs[id]? = some job) {new : Stage}
    {shelves : List Shelf} {cancelled : List Token} {sweeper : Option JobId}
    (hlocks : ({ c with shelves, cancelled, sweeper }.settle id job.stage new).LocksSound)
    {store : Nat} {pre pre' common : List Stay} (hf : Journal.Follows id store pre pre' common journal journal')
    (hfree : pre ++ pre' ≠ [] → ∀ j, j ≠ id → c.inside? j ≠ some store) (hprompt : Prompt shelves)
    (hcontent : ∀ s, recordsAt shelves s = replay (start s) (journal'.stays s))
    (hserves : ∀ stay ∈ pre', stay.act.Serves c.mounts (journal.started id) job.request store)
    (hjob : JobSound c.mounts start journal' id { job with stage := new }) :
    Serial start ({ c with shelves, cancelled, sweeper }.settle id job.stage new) journal' := by
  have hjobs := Cache.getElem?_settle hj shelves cancelled sweeper job.stage new
  refine ⟨hlocks, hprompt, hcontent, fun j job' hj' => ?_, fun s stay hstay => ?_⟩
  · rw [hjobs] at hj'
    split at hj'
    next heq =>
      cases hj'
      rw [heq]
      exact hjob
    next hne =>
      refine hf.jobSound hne (fun hp hi => hfree hp j hne ?_) (h.jobs j job' hj')
      rw [Cache.inside?_eq hj']
      exact hi
  · have hold (hstay : stay ∈ journal.stays s) :
    ∃ job', ({ c with shelves, cancelled, sweeper }.settle id job.stage
        new).jobs[stay.job]? = some job' ∧
          stay.act.Serves c.mounts (journal'.started stay.job) job'.request s := by
      obtain ⟨job', hj', hserved⟩ := h.serves s stay hstay
      rw [hjobs, hf.started]
      split
      next heq =>
        rw [heq, hj] at hj'
        cases hj'
        exact ⟨_, rfl, hserved⟩
      next => exact ⟨job', hj', hserved⟩
    by_cases hss : s = store
    · -- Here the stay is of the job itself, or it was in the journal before.
      subst hss
      rw [hf.after] at hstay
      rcases List.mem_append.1 hstay with hmem | hmem
      · have hid := hf.own stay (List.mem_append_right _ hmem)
        refine ⟨{ job with stage := new }, ?_, ?_⟩
        · rw [hjobs, if_pos hid]
        · rw [hid, hf.started]
          exact hserves stay hmem
      · exact hold (by rw [hf.before]; exact List.mem_append_right _ hmem)
    · rw [hf.other s hss] at hstay
      exact hold hstay

variable {cancelled : List Token} {sweeper : Option JobId} {new : Stage} {shelves : List Shelf} {store : Nat}
  {shelf shelf' : Shelf} {visit : Visit}

/-- A transition that leaves the records and the journal alone. -/
theorem quiet (h : Serial start c journal) (hj : c.jobs[id]? = some job)
    (hlocks : ({ c with shelves, cancelled, sweeper }.settle id job.stage new).LocksSound)
    (hprompt : Prompt shelves) (hrecords : ∀ s, recordsAt shelves s = c.records s)
    (hjob : JobSound c.mounts start journal id { job with stage := new }) :
    Serial start ({ c with shelves, cancelled, sweeper }.settle id job.stage new) journal := by
  refine h.transition hj hlocks (.refl id journal) (fun hne => absurd rfl hne) hprompt (fun s => ?_)
    (fun _ hstay => nomatch hstay) hjob
  rw [hrecords, h.content]

/-- The records and the promptness of shelves one of which has its old store. -/
private theorem set_same (h : Serial start c journal) (hs : c.shelves[store]? = some shelf)
    (hstore : shelf'.store = shelf.store) (ho : shelf'.outages = []) :
    Prompt (c.shelves.set store shelf') ∧ ∀ s, recordsAt (c.shelves.set store shelf') s = c.records s := by
  refine ⟨h.prompt.set store ho (hstore ▸ (h.prompt store shelf hs).2), fun s => ?_⟩
  rw [recordsAt_set (List.getElem?_eq_some_iff.1 hs).1]
  split
  next heq => simp only [Cache.records, recordsAt, heq, hs, hstore]
  next => rfl

/-- Who has the lock of a store does not matter to its records. -/
private theorem set_lock (h : Serial start c journal) (hs : c.shelves[store]? = some shelf) (lock : Lock) :
    Prompt (c.shelves.set store { shelf with lock }) ∧
      ∀ s, recordsAt (c.shelves.set store { shelf with lock }) s = c.records s :=
  h.set_same hs rfl (h.prompt store shelf hs).1

/-- What a job wants from a store is what its request asks for. -/
private theorem asks {stage : Stage} (hw : Wants c job stage store visit)
    (ho : Outside c.mounts (journal.started id) job.request stage)
    (hstart : stage = .ready → journal.started id = some c.clock) :
    Asks c.mounts (journal.started id) job.request store visit := by
  cases hw with
  | call hroute => exact .call ⟨c.clock, hstart rfl, hroute⟩
  | @mount cycle path store rest hrest hc =>
    cases ho with
    | between hcycle =>
      refine .mount (hcycle.2 (path, store) (by rw [hrest]; exact List.mem_cons_self)) ⟨hcycle.1,
        fun mount hm => ?_⟩
      exact hcycle.2 mount (by rw [hrest]; exact List.mem_cons_of_mem _ hm)

/-- A job that is cancelled before it has got the lock. -/
private theorem jobSound_fail (hasks : Asks c.mounts (journal.started id) job.request store visit)
    (hlacks : job.request.IsCall → journal.Lacks id) :
    JobSound c.mounts start journal id { job with stage := (visit.fail .cancelled).stage } := by
  cases hasks with
  | call hadmitted =>
    obtain ⟨clock, hstart, hroute⟩ := hadmitted
    have hover : (visit.fail .cancelled).stage = .finished (.failed .cancelled) := by
      generalize job.request = request at hroute
      cases Request.routed hroute <;> rfl
    exact .finished hover fun hc => .inr ⟨hlacks hc, .inl rfl⟩
  | mount _ hcycle =>
    exact .of_sweeps hcycle.1 (.between ⟨hcycle.1, hcycle.2⟩) (by simp [Visit.fail, Visit.Turn.stage])

/-- A job comes into a store in which nobody is at work. -/
private theorem comeIn (h : Serial start c journal) (hj : c.jobs[id]? = some job) {shelf₀ : Shelf}
    (hlocks : ({ c with shelves := c.shelves.set store shelf', cancelled, sweeper }.settle id job.stage
      new).LocksSound)
    (ho : job.stage.inside? = none)
    (hlacks : job.request.IsCall → journal.Lacks id) (hs : c.shelves[store]? = some shelf)
    (hasks : Asks c.mounts (journal.started id) job.request store visit)
    (hfree : ∀ j, j ≠ id → c.inside? j ≠ some store) (h₀ : shelf₀.store = shelf.store ∧ shelf₀.outages = [])
    (hv : Visits c id store shelf₀ visit new shelf') :
    Serial start ({ c with shelves := c.shelves.set store shelf', cancelled, sweeper }.settle id job.stage new)
      (journal.moved c id job new) := by
  have hrecords : c.records store = shelf.store.records := by simp [Cache.records, recordsAt, hs]
  have hlt := (List.getElem?_eq_some_iff.1 hs).1
  obtain ⟨houtages, hfaithful, hcases⟩ := visits_faithful hv h₀.2 (h₀.1 ▸ (h.prompt store shelf hs).2)
  rw [h₀.1] at hcases
  -- The stay that begins, if the job stays in the store.
  have henter (hi : new.inside? = some store) {entries' : KeyMap Record}
      (hstore : shelf'.store.records = entries')
      (hg : Ongoing c.mounts (journal.started id) job.request (replay (start store) (journal.stays store)) store
        (Act.idle.onCall new) new)
      (hafter : ((Act.idle.onCall new).apply (replay (start store) (journal.stays store))).2 = entries') :
      Serial start ({ c with shelves := c.shelves.set store shelf', cancelled, sweeper }.settle id job.stage new)
        (journal.moved c id job new) := by
    have hjournal : journal.moved c id job new = journal.change store (⟨id, Act.idle.onCall new⟩ :: ·) := by
      simp only [Journal.moved, ho, hi]
    rw [hjournal]
    refine h.transition hj hlocks (.enter id store _ journal) (fun _ => hfree)
      (h.prompt.set store houtages hfaithful) (fun s => ?_) (fun stay hstay => ?_) ?_
    · rw [recordsAt_set hlt]
      simp only [Journal.change]
      split
      next heq =>
        subst heq
        rw [hstore]
        exact hafter.symm
      next => exact h.content s
    · rw [List.mem_singleton.1 hstay]
      exact hg.serves
    · refine .inside (by simp [Journal.change]) hg fun hc s => ?_
      have hl := hlacks hc s
      by_cases hss : s = store
      · subst hss
        rwa [if_pos rfl]
      · rw [if_neg hss]
        simpa [Journal.change, hss] using hl
  rcases hcases with ⟨ms, due, rfl, rfl, hstore⟩ | ⟨call, hcall, rfl, hstore⟩ | ⟨replies, rfl, rfl, hstore⟩
  · refine henter rfl (congrArg Store.records hstore) (.hold ?_) (by rw [← h.content, hrecords]; rfl)
    cases hasks with
    | call hadmitted =>
      obtain ⟨clock, -, hroute⟩ := hadmitted
      exact ⟨ms, (Request.routed hroute).eq_hold⟩
  · obtain ⟨hg, hafter⟩ := Ongoing.enter shelf.store.records hasks hcall
    refine henter rfl hstore ?_ ?_
    · rw [← h.content, hrecords]
      exact hg
    · rw [← h.content, hrecords]
      exact hafter
  · have hjournal : journal.moved c id job (.finished (.replies replies)) = journal := by
      rw [Journal.moved, ho]
      rfl
    obtain ⟨hprompt, hsame⟩ := h.set_same hs hstore houtages
    rw [hjournal]
    refine h.quiet hj hlocks hprompt hsame (.finished rfl fun hc => ?_)
    cases hasks with
    | call hadmitted =>
      obtain ⟨clock, -, hroute⟩ := hadmitted
      rw [(Request.routed hroute).eq_calls] at hc
      exact hc.elim

/-- A job at work in a store makes its next call. -/
private theorem goOn (h : Serial start c journal) (hj : c.jobs[id]? = some job) {reply : Reply} {visit' : Visit}
    (hstage : job.stage = .returned store visit reply)
    (hlocks : ({ c with shelves := c.shelves.set store shelf', cancelled, sweeper }.settle id job.stage
      new).LocksSound)
    (hs : c.shelves[store]? = some shelf)
    (hnext : visit.next c.clock (c.isCancelled job.token) reply = .stay visit')
    (hv : Visits c id store shelf visit' new shelf') :
    Serial start ({ c with shelves := c.shelves.set store shelf', cancelled, sweeper }.settle id job.stage new)
      (journal.moved c id job new) := by
  obtain ⟨ho, hf⟩ := h.prompt store shelf hs
  have hrecords : c.records store = shelf.store.records := by simp [Cache.records, recordsAt, hs]
  have hlt := (List.getElem?_eq_some_iff.1 hs).1
  have hi : job.stage.inside? = some store := by rw [hstage]; rfl
  obtain ⟨act, before, hstays, hg, hn⟩ := (h.jobs id job hj).of_inside hi
  have hact : (act.apply (replay (start store) before)).2 = shelf.store.records := by
    rw [← hrecords, h.content, hstays]
    rfl
  rw [hstage] at hg
  obtain ⟨call, hcall, hstay⟩ := hg.stay hnext
  obtain ⟨houtages, hfaithful, hcases⟩ := visits_faithful hv ho hf
  rcases hcases with ⟨ms, due, rfl, -⟩ | ⟨call', hcall', rfl, hstore⟩ | ⟨replies, rfl, -⟩
  · cases hcall
  · rw [hcall] at hcall'
    cases hcall'
    rw [hact] at hstay
    obtain ⟨hg', hafter⟩ := hstay _ _ rfl rfl
    have hjournal : journal.moved c id job (.returned store visit' (performEntries shelf.store.records call).1) =
        journal.change store (Journal.amend id fun act =>
          (act.onReply c.clock.read? (c.isCancelled job.token) (.returned store visit reply)).onCall
            (.returned store visit' (performEntries shelf.store.records call).1)) := by
      rw [Journal.moved, hi, hstage]
    rw [hjournal]
    refine h.transition hj hlocks (.amend hstays _) (fun _ j hne hinside => ?_)
      (h.prompt.set store houtages hfaithful) (fun s => ?_) (fun stay hstay => ?_) ?_
    · refine hne (h.locks.exclusive hinside ?_)
      rw [Cache.inside?_eq hj, hi]
    · rw [recordsAt_set hlt]
      simp only [Journal.change]
      split
      next heq =>
        subst heq
        rw [hstore, hstays]
        simp only [Journal.amend, ↓reduceIte]
        exact hafter.symm
      next => exact h.content s
    · rw [List.mem_singleton.1 hstay]
      exact hg'.serves
    · refine .inside (by simp [Journal.change, hstays, Journal.amend]) hg' fun hc s => ?_
      have hl := hn hc s
      by_cases hss : s = store
      · rwa [if_pos hss] at hl ⊢
      · rw [if_neg hss] at hl ⊢
        simpa [Journal.change, hss] using hl
  · cases hcall

/-- A job outside the stores after it has left one. -/
private theorem jobSound_left {turn : Visit.Turn} {act : Act} {before : List Stay} {visit : Visit}
    {reply : Reply} (hg : Ongoing c.mounts (journal'.started id) job.request (replay (start store) before)
      store act (.returned store visit reply))
    (hnext : visit.next c.clock (c.isCancelled job.token) reply = turn) (hturn : ∀ visit', turn ≠ .stay visit')
    (hanswered : job.request.IsCall → ∀ answer, turn = .answer answer →
      journal'.Answered c.mounts start id job.request answer) :
    JobSound c.mounts start journal' id { job with stage := turn.stage } := by
  have hsweep {path : String} {now : Instant} {report : SweepReport} {rest : List KeyRecord}
      {old cycle : SweepCycle}
      (hmove : Visit.sweepOn path now (c.isCancelled job.token) report rest old = .move cycle)
      (hold : Cycles c.mounts job.request old) : Cycles c.mounts job.request cycle := by
    rcases Visit.sweepOn_cases path now (c.isCancelled job.token) report rest old with
      ⟨report', heq, -⟩ | ⟨_, _, _, heq, -⟩ <;> rw [heq] at hmove <;> cases hmove
    exact hold
  have hmove (cycle : SweepCycle) (hturn : turn = .move cycle) : Cycles c.mounts job.request cycle := by
    subst hturn
    cases hg with
    | @get key h =>
      replace hnext : Visit.readOn key c.clock.read? _ = .move cycle := hnext
      rcases Visit.readOn_cases key c.clock.read? (replay (start store) before) with
        ⟨_, heq, -⟩ | ⟨_, _, heq, -⟩ <;>
        rw [heq] at hnext <;> cases hnext
    | list hm h =>
      replace hnext : Visit.listOn _ c.clock.read? (c.isCancelled job.token) _ _ = .move cycle := hnext
      unfold Visit.listOn at hnext
      split at hnext
      next => cases hnext
      next => exact hsweep hnext h
    | evict hm h => exact hsweep hnext h
    | calls =>
      simp only [Visit.next, Visit.callsOn] at hnext
      split at hnext <;> cases hnext
    | _ => cases hnext
  cases turn with
  | answer answer => exact .finished rfl fun hc => hanswered hc answer rfl
  | move cycle =>
    have hcycle := hmove cycle rfl
    exact .of_sweeps hcycle.1 (.between hcycle) (by simp [Visit.Turn.stage])
  | stay visit' => exact absurd rfl (hturn visit')

/-- A job leaves the store in which it has been at work. -/
private theorem goOut (h : Serial start c journal) (hj : c.jobs[id]? = some job) {reply : Reply}
    {turn : Visit.Turn} (hstage : job.stage = .returned store visit reply)
    (hlocks : ({ c with shelves := c.shelves.set store (shelf.left id), cancelled, sweeper }.settle id job.stage
      turn.stage).LocksSound)
    (hs : c.shelves[store]? = some shelf) (hnext : visit.next c.clock (c.isCancelled job.token) reply = turn)
    (hturn : ∀ visit', turn ≠ .stay visit') :
    Serial start ({ c with shelves := c.shelves.set store (shelf.left id), cancelled, sweeper }.settle id job.stage
      turn.stage) (journal.moved c id job turn.stage) := by
  have hi : job.stage.inside? = some store := by rw [hstage]; rfl
  obtain ⟨act, before, hstays, hg, hn⟩ := (h.jobs id job hj).of_inside hi
  rw [hstage] at hg
  obtain ⟨hafter, hserves, hanswer⟩ := hg.leave hnext hturn
  obtain ⟨hprompt, hsame⟩ := h.set_lock hs (shelf.lock.leave id)
  have hjournal : journal.moved c id job turn.stage =
      journal.change store (Journal.amend id fun act =>
        act.onReply c.clock.read? (c.isCancelled job.token) (.returned store visit reply)) := by
    rw [Journal.moved, hi, hstage]
    simp only [Act.onCall_turn]
  have hstays' : (journal.moved c id job turn.stage).stays store =
      ⟨id, act.onReply c.clock.read? (c.isCancelled job.token) (.returned store visit reply)⟩ :: before := by
    rw [hjournal]
    simp [Journal.change, hstays, Journal.amend]
  have hf := Journal.Follows.amend hstays fun act =>
    act.onReply c.clock.read? (c.isCancelled job.token) (.returned store visit reply)
  rw [← hjournal] at hf
  refine h.transition hj hlocks hf (fun _ j hne hinside => ?_) hprompt (fun s => ?_)
    (fun stay hstay => ?_) ?_
  · refine hne (h.locks.exclusive hinside ?_)
    rw [Cache.inside?_eq hj, hi]
  · refine (hsame s).trans ((h.content s).trans ?_)
    by_cases hss : s = store
    · subst hss
      rw [hstays', hstays]
      exact hafter.symm
    · rw [hf.other s hss]
  · rw [List.mem_singleton.1 hstay]
    exact hserves
  · refine jobSound_left (hf.started ▸ hg) hnext hturn fun hc answer hturn => .inl ?_
    refine ⟨store, [], _, before, hstays', fun s => ?_, hanswer hc answer hturn⟩
    have hl := hn hc s
    by_cases hss : s = store
    · rwa [if_pos hss] at hl ⊢
    · rw [if_neg hss] at hl ⊢
      rwa [hf.other s hss]

/-- Holding a lock leaves no trace but the stay itself. -/
private theorem moved_holding {act : Act} {before : List Stay}
    (hstays : journal.stays store = ⟨id, act⟩ :: before)
    {due : Nat} (hstage : job.stage = .holding store due) (hnew : ∀ act : Act, act.onCall new = act) :
    journal.moved c id job new = journal := by
  have hi : job.stage.inside? = some store := by rw [hstage]; rfl
  have hamend : Journal.amend id (fun act => act) (journal.stays store) = journal.stays store := by
    simp [hstays, Journal.amend]
  rw [Journal.moved, hi, hstage]
  simp only [Act.onReply, hnew, Journal.change]
  congr 1
  funext s
  split
  next heq => rw [heq, hamend]
  next => rfl

/-- A job gives back a lock that it has only held. -/
private theorem release (h : Serial start c journal) (hj : c.jobs[id]? = some job) {due : Nat}
    (hstage : job.stage = .holding store due)
    (hlocks : ({ c with shelves := c.shelves.set store (shelf.left id), cancelled, sweeper }.settle id job.stage
      (.finished .ended)).LocksSound)
    (hs : c.shelves[store]? = some shelf) :
    Serial start ({ c with shelves := c.shelves.set store (shelf.left id), cancelled, sweeper }.settle id job.stage
      (.finished .ended)) (journal.moved c id job (.finished .ended)) := by
  have hi : job.stage.inside? = some store := by rw [hstage]; rfl
  obtain ⟨act, before, hstays, hg, hn⟩ := (h.jobs id job hj).of_inside hi
  rw [hstage] at hg
  cases hg with
  | hold hr =>
    obtain ⟨hprompt, hsame⟩ := h.set_lock hs (shelf.lock.leave id)
    rw [moved_holding hstays hstage fun act => rfl]
    refine h.quiet hj hlocks hprompt hsame (.finished rfl fun hc => ?_)
    obtain ⟨ms, hr⟩ := hr
    rw [hr] at hc
    exact hc.elim

/-- The time at which a job begins is noted. -/
private theorem begun (h : Serial start c journal) (hj : c.jobs[id]? = some job) :
    Serial start c (journal.begun c.clock id job.stage) ∧
      (job.stage = .ready → (journal.begun c.clock id job.stage).started id = some c.clock) := by
  unfold Journal.begun
  split
  next hready =>
    obtain ⟨-, hlacks⟩ := (h.jobs id job hj).of_outside (by rw [hready]; rfl) (by simp [hready])
    have hlacks := hlacks (.inr hready)
    have hstarted {j : JobId} (hne : j ≠ id) :
        (if j = id then some c.clock else journal.started j) = journal.started j := if_neg hne
    refine ⟨⟨h.locks, h.prompt, h.content, fun j job' hj' => ?_, fun s stay hstay => ?_⟩, fun _ => if_pos rfl⟩
    · by_cases hne : j = id
      · subst hne
        rw [hj] at hj'
        cases hj'
        exact .outside (hready ▸ .ready) fun _ => hlacks
      · cases h.jobs j job' hj' with
        | outside ho hn => exact .outside (by dsimp only; rwa [hstarted hne]) hn
        | inside hs hg hn => exact .inside hs (by dsimp only; rwa [hstarted hne]) hn
        | finished hstage ha =>
          refine .finished hstage fun hc => ?_
          unfold Journal.Answered at ha ⊢
          dsimp only
          rw [hstarted hne]
          exact ha hc
    · obtain ⟨job', hj', hserved⟩ := h.serves s stay hstay
      refine ⟨job', hj', ?_⟩
      dsimp only
      rwa [hstarted (hlacks s stay hstay)]
  next hready => exact ⟨h, fun hr => absurd hr hready⟩

/-- The journal after a change of stage outside the stores. -/
private theorem moved_outside (ho : job.stage.inside? = none) (hn : new.inside? = none) :
    journal.moved c id job new = journal := by
  rw [Journal.moved, ho, hn]

/-- A job that goes on outside the stores. -/
private theorem jobSound_aside (ho : Outside c.mounts (journal.started id) job.request job.stage)
    (hlacks : job.request.IsCall ∨ job.stage = .ready → journal.Lacks id)
    (hstart : job.stage = .ready → journal.started id = some c.clock) (ha : Aside c job job.stage new) :
    JobSound c.mounts start journal id { job with stage := new } := by
  have hend {answer : Answer} (hr : ¬job.request.IsCall) :
      JobSound c.mounts start journal id { job with stage := .finished answer } :=
        .finished rfl fun hc => absurd hc hr
  have hcycle : Cycles c.mounts job.request c.fullCycle ↔
      job.request.Sweeps := ⟨fun h => h.1, fun h => ⟨h, fun _ hm => hm⟩⟩
  generalize hold : job.stage = old at ho hlacks hstart ha
  cases ha with
  | answer hroute hr =>
    exact .finished rfl fun _ => .inr ⟨hlacks (.inr rfl), .inr ⟨c.clock, hstart rfl, hroute⟩⟩
  | sweep hr => exact .of_sweeps (.inl hr) (.between (hcycle.2 (.inl hr))) (by simp)
  | sweeper hr => exact .of_sweeps (.inr hr) (.idle (.inr hr)) (by simp)
  | shutdown hr => exact hend (by rw [hr]; exact not_false)
  | await hr =>
    refine .outside (.awaiting hr) fun hc => ?_
    rcases hc with hc | hc
    · rw [hr] at hc
      exact hc.elim
    · cases hc
  | swept _ hr =>
    cases ho with
    | between h => exact hend h.1.not_isCall
  | pause _ hr =>
    cases ho with
    | between h => exact .of_sweeps h.1 (.idle h.1) (by simp)
  | stop _ =>
    cases ho with
    | idle h => exact hend h.not_isCall
  | wake _ _ =>
    cases ho with
    | idle h => exact .of_sweeps h (.between (hcycle.2 h)) (by simp)
  | joined _ =>
    cases ho with
    | awaiting h => exact hend (by rw [h]; exact not_false)

/-- A transition in a run of a job is noted in the journal. -/
private theorem moves (h : Serial start c journal) (hj : c.jobs[id]? = some job)
    (hstart : job.stage = .ready → journal.started id = some c.clock)
    (ht : Transition c id job job.stage new shelves) :
    Serial start ({ c with shelves, cancelled, sweeper }.settle id job.stage new)
      (journal.moved c id job new) := by
  have hlocks : ({ c with shelves, cancelled, sweeper }.settle id job.stage new).LocksSound :=
    h.locks.transition hj ht
  have hout (hi : job.stage.inside? = none) (hover : ∀ answer, job.stage ≠ .finished answer) :=
    (h.jobs id job hj).of_outside hi hover
  have hwants {store : Nat} {visit : Visit} (hw : Wants c job job.stage store visit) :
      job.stage.inside? = none ∧ (job.request.IsCall → journal.Lacks id) ∧
        Asks c.mounts (journal.started id) job.request store visit := by
    have hboth : job.stage.inside? = none ∧ ∀ answer, job.stage ≠ .finished answer := by
      generalize job.stage = old at hw
      cases hw <;> exact ⟨rfl, by simp⟩
    obtain ⟨ho, hlacks⟩ := hout hboth.1 hboth.2
    exact ⟨hboth.1, fun hc => hlacks (.inl hc), asks hw ho hstart⟩
  -- The stage has a name of its own: the cases are those of the transition, the job stays whole.
  obtain ⟨old, hold⟩ : ∃ old, old = job.stage := ⟨_, rfl⟩
  rw [← hold] at ht
  cases ht with
  | aside ha =>
    have hinside : new.inside? = none ∧ job.stage.inside? = none ∧ ∀ answer, job.stage ≠ .finished answer := by
      rw [← hold]
      cases ha <;> exact ⟨rfl, rfl, by simp⟩
    obtain ⟨ho, hlacks⟩ := hout hinside.2.1 hinside.2.2
    rw [moved_outside hinside.2.1 hinside.1]
    exact h.quiet hj hlocks h.prompt (fun _ => rfl) (jobSound_aside ho hlacks hstart (hold ▸ ha))
  | @refuse _ store _ shelf _ hw hs hf =>
    obtain ⟨houtages, hfaithful⟩ := h.prompt store shelf hs
    simp [Shelf.lockRefusal?, Shelf.outage?, houtages, hfaithful.lockRefusal?] at hf
  | @cancel _ store visit shelf hw hs _ _ =>
    obtain ⟨ho, hlacks, hasks⟩ := hwants (hold ▸ hw)
    have hrequested : shelf.requested.outages = [] := by simp [Shelf.requested, (h.prompt store shelf hs).1]
    obtain ⟨hprompt, hsame⟩ := h.set_same hs (show shelf.requested.store = shelf.store from rfl) hrequested
    rw [moved_outside ho (by cases visit <;> rfl)]
    exact h.quiet hj hlocks hprompt hsame (jobSound_fail hasks hlacks)
  | @queue _ store visit shelf _ hw hs _ _ _ _ =>
    obtain ⟨ho, hlacks, hasks⟩ := hwants (hold ▸ hw)
    have hrequested : (shelf.asked id).outages = [] := by simp [Shelf.asked, Shelf.requested,
        (h.prompt store shelf hs).1]
    obtain ⟨hprompt, hsame⟩ := h.set_same hs (show (shelf.asked id).store = shelf.store from rfl) hrequested
    rw [moved_outside ho rfl]
    refine h.quiet hj hlocks hprompt hsame (.outside (.queued hasks) fun hc => ?_)
    rcases hc with hc | hc
    · exact hlacks hc
    · cases hc
  | @enter _ store visit shelf _ _ hw hs _ _ hfree hv =>
    obtain ⟨ho, hlacks, hasks⟩ := hwants (hold ▸ hw)
    have hrequested : (shelf.asked id).outages = [] := by simp [Shelf.asked, Shelf.requested,
        (h.prompt store shelf hs).1]
    refine h.comeIn hj hlocks ho hlacks hs hasks (fun j _ hinside => ?_)
      (show (shelf.asked id).store = shelf.store ∧ (shelf.asked id).outages = [] from ⟨rfl, hrequested⟩) hv
    have hholder := h.locks.holder_of_inside hinside hs
    rw [hfree] at hholder
    cases hholder
  | @grant store visit shelf _ _ hs _ hholder hv =>
    have hi : job.stage.inside? = none := by rw [← hold]; rfl
    obtain ⟨ho, hlacks⟩ := hout hi (by simp [← hold])
    have hasks : Asks c.mounts (journal.started id) job.request store visit := by
      rw [← hold] at ho
      cases ho with
      | queued hasks => exact hasks
    refine h.comeIn hj hlocks hi (fun hc => hlacks (.inl hc)) hs hasks (fun j hne hinside => ?_)
      ⟨rfl, (h.prompt store shelf hs).1⟩ hv
    have hinside := h.locks.holder_of_inside hinside hs
    rw [hholder] at hinside
    exact hne (Holder.job.inj (Option.some.inj hinside)).symm
  | @call store visit due _ shelf hs hcall _ =>
    -- Nobody waits with the lock of a store that serves every call at once.
    obtain ⟨_, _, _, hg, -⟩ := (h.jobs id job hj).of_inside (by rw [← hold]; rfl)
    rw [← hold] at hg
    cases hg
  | stay hs hnext hv => exact h.goOn hj hold.symm hlocks hs hnext hv
  | @leave _ store shelf turn hk hs hl =>
    cases hl with
    | @cancelled store' visit hc =>
      have hi : job.stage.inside? = none := by rw [← hold]; rfl
      obtain ⟨ho, hlacks⟩ := hout hi (by simp [← hold])
      obtain ⟨hprompt, hsame⟩ := h.set_lock hs (shelf.lock.leave id)
      rw [moved_outside hi (by cases visit <;> rfl)]
      rw [← hold] at ho
      cases ho with
      | queued hasks =>
        exact h.quiet hj hlocks hprompt hsame (jobSound_fail hasks fun hc => hlacks (.inl hc))
    | @next store' visit reply _ hnext hturn =>
      obtain rfl : store' = store := by simpa [Stage.claim?, Stage.inside?] using hk
      exact h.goOut hj hold.symm hlocks hs hnext hturn
    | @held store' due _ =>
      obtain rfl : store' = store := by simpa [Stage.claim?, Stage.inside?] using hk
      exact h.release hj hold.symm hlocks hs

/-- A run of a job is noted in the journal. -/
private theorem run (h : Serial start c journal) (id : JobId) :
    Serial start (c.run id) (journal.note c (.run id)) := by
  cases hj : c.jobs[id]? with
  | none =>
    have hrun : c.run id = c := by simp only [Cache.run, hj]
    simpa only [Journal.note, hj, hrun] using h
  | some job =>
    obtain ⟨hbegun, hstart⟩ := h.begun hj
    rcases h.locks.run_cases hj with ⟨heq, hnot⟩ | ⟨new, shelves, cancelled, sweeper, ht, -, heq⟩
    · have hmoved : (journal.begun c.clock id job.stage).moved c id job job.stage =
          journal.begun c.clock id job.stage := by
        cases hi : job.stage.inside? with
        | none => exact moved_outside hi hi
        | some store =>
          -- A job that stays where it is in a store holds the lock for a time.
          obtain ⟨act, before, hstays, hg, -⟩ := (hbegun.jobs id job hj).of_inside hi
          obtain ⟨due, hstage⟩ : ∃ due, job.stage = .holding store due := by
            generalize job.stage = stage at hg hnot
            cases hg with
            | hold => exact ⟨_, rfl⟩
            | _ => exact absurd rfl (hnot _ _ _)
          exact moved_holding hstays hstage fun act => by rw [hstage]; rfl
      simp only [Journal.note, hj, heq, Cache.stage?_eq hj]
      rw [hmoved]
      exact hbegun
    · have hstage : (c.run id).stage? id = some new := by rw [heq, Cache.stage?_settle hj, if_pos rfl]
      simp only [Journal.note, hj, hstage]
      rw [heq]
      exact hbegun.moves hj hstart ht

/-- A sweep that gives up a mount leaves no trace but the stay itself. -/
private theorem expire (h : Serial start c journal) (id : JobId) : Serial start (c.expire id) journal := by
  rcases h.locks.expire_cases id with heq | ⟨job, new, shelves, hj, he, heq⟩
  · rwa [heq]
  · have hlocks := h.locks.expiry hj he
    rw [heq]
    obtain ⟨old, hold⟩ : ∃ old, old = job.stage := ⟨_, rfl⟩
    rw [← hold] at he
    cases he with
    | @skip store cycle shelf hk _ hs =>
      obtain ⟨hprompt, hsame⟩ := h.set_lock hs (shelf.givenUp id (old.working shelf.store)).lock
      have hcycle : Cycles c.mounts job.request cycle := (h.jobs id job hj).cycles (hold ▸ hk)
      exact h.quiet hj hlocks hprompt hsame (.of_sweeps hcycle.1 (.between ⟨hcycle.1, hcycle.2⟩) (by simp))

/-- Every event is noted in the journal. -/
theorem step (h : Serial start c journal) (event : Event) :
    Serial start (c.step event) (journal.note c event) := by
  have hlocks := h.locks.step event
  cases event with
  | start request token =>
    have hold {j : JobId} {job : Job} (hj : c.jobs[j]? = some job) :
        (c.step (.start request token)).jobs[j]? = some job := by
      simp only [Cache.step]
      rw [List.getElem?_append_left (List.getElem?_eq_some_iff.1 hj).1, hj]
    refine ⟨hlocks, h.prompt, h.content, fun j job hj => ?_, fun s stay hstay => ?_⟩
    · simp only [Cache.step, List.getElem?_append, List.getElem?_singleton] at hj
      split at hj
      next => exact h.jobs j job hj
      next hge =>
        split at hj
        next hz =>
          cases hj
          refine .outside .ready fun _ s stay hstay heq => ?_
          obtain ⟨job, hjob, -⟩ := h.serves s stay hstay
          have hlt := (List.getElem?_eq_some_iff.1 hjob).1
          rw [heq] at hlt
          exact hge hlt
        next => cases hj
    · obtain ⟨job, hj, hserved⟩ := h.serves s stay hstay
      exact ⟨job, hold hj, hserved⟩
  | run id => exact h.run id
  | expire id => exact h.expire id
  | complete store =>
    rcases Cache.complete_cases c store with heq | ⟨shelf, hs, heq⟩
    · rw [heq]
      exact h
    · rw [heq] at hlocks ⊢
      obtain ⟨hprompt, hsame⟩ := h.set_lock hs shelf.lock.release
      exact ⟨hlocks, hprompt, fun s => (hsame s).trans (h.content s), h.jobs, h.serves⟩
  | cancel token =>
    simp only [Cache.step, Cache.cancel]
    split
    next => exact h
    next =>
      exact ⟨h.locks.of_eq rfl rfl, h.prompt, h.content, h.jobs, h.serves⟩
  | elapse ms => exact ⟨hlocks, h.prompt, h.content, h.jobs, h.serves⟩
  | setClock t => exact ⟨hlocks, h.prompt, h.content, h.jobs, h.serves⟩

theorem steps (h : Serial start c journal) (events : List Event) :
    Serial start (c.steps events) (journal.along c events) := by
  induction events generalizing c journal with
  | nil => exact h
  | cons event events ih => exact ih (h.step event)

end Serial

/-! ### Runs from the start -/

namespace Cache

variable {first : Cache}

/-- All stores are in memory or faithful collections. -/
def Faithful (c : Cache) : Prop :=
  ∀ (s : Nat) (shelf : Shelf), c.shelves[s]? = some shelf → shelf.store.Faithful

end Cache

end RoutedCache

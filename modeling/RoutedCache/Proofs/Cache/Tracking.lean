import RoutedCache.Proofs.Cache.Rounds

/-!
# What the log of a sweep tells

The log of a sweep agrees with its stage.  The passes of a round go over the mounts in the order of the table; a pass
that has swept its mount has dealt with the entries of its listing one after the other, and its share of the report
counts what it has removed, what was refused to it and what it has found valid; a pass that has failed or has
expired has nothing in the report but that its mount was skipped (`MountPass.Closed`).  `Tracks` says so for every
stage of a sweep, and every turn of the sweep keeps it (`Tracks.turned`, `Tracks.expired`), so that it holds in every
run (`Cache.tracks_steps`).
-/

namespace RoutedCache

/-- Whether a sweep of the mount at the given time counts a record as valid. -/
def KeyRecord.isKept (path : String) (now : Instant) (entry : KeyRecord) : Bool :=
  MountTable.owns path entry.key && entry.record.isValidAt now

/-- The report after some entries that are no work for the sweep. -/
def SweepReport.passing (report : SweepReport) (path : String) (now : Instant) (entries : List KeyRecord) :
    SweepReport :=
  { report with valid := report.valid + entries.countP (·.isKept path now) }

private theorem SweepReport.passing_cons (report : SweepReport) (path : String) (now : Instant)
    (first : KeyRecord) (entries : List KeyRecord) :
    (report.passing path now [first]).passing path now entries = report.passing path now (first :: entries) := by
  have hsum (n : Nat) : report.valid + [first].countP (·.isKept path now) + n =
      report.valid + ([first].countP (·.isKept path now) + n) := Nat.add_assoc ..
  rw [show first :: entries = [first] ++ entries from rfl]
  simp only [passing, List.countP_append, hsum]

namespace MountSweep

/-- What a sweep finds among the entries that are left: the first doomed one, or none before it has to stop. -/
inductive Finds (path : String) (now : Instant) (cancelled : Bool) (report : SweepReport) :
    List KeyRecord → Except SweepReport (KeyRecord × MountSweep) → Prop
  | stops {passed rest} (hp : ∀ e ∈ passed, e.isDoomed path now = false) (hc : cancelled = true ∨ rest = []) :
      Finds path now cancelled report (passed ++ rest) (.error (report.passing path now passed))
  | doomed {passed entry rest} (hp : ∀ e ∈ passed, e.isDoomed path now = false)
      (hd : entry.isDoomed path now = true) :
      Finds path now cancelled report (passed ++ entry :: rest)
        (.ok (entry, ⟨path, now, rest, report.passing path now passed⟩))

variable {path : String} {now : Instant} {cancelled : Bool} {report : SweepReport} {entries : List KeyRecord}
  {first : KeyRecord}

private theorem Finds.cons {found : Except SweepReport (KeyRecord × MountSweep)}
    (h : Finds path now cancelled (report.passing path now [first]) entries found)
    (hfirst : first.isDoomed path now = false) : Finds path now cancelled report (first :: entries) found := by
  have hcons {passed : List KeyRecord} (hp : ∀ e ∈ passed, e.isDoomed path now = false) :
      ∀ e ∈ first :: passed, e.isDoomed path now = false := by
    intro e he
    rcases List.mem_cons.1 he with rfl | he
    · exact hfirst
    · exact hp e he
  cases h with
  | stops hp hc =>
    rw [SweepReport.passing_cons]
    exact .stops (hcons hp) hc
  | doomed hp hd =>
    rw [SweepReport.passing_cons]
    exact .doomed (hcons hp) hd

theorem next_finds (path : String) (now : Instant) (cancelled : Bool) (report : SweepReport)
    (entries : List KeyRecord) :
    Finds path now cancelled report entries (next path now cancelled report entries) := by
  have hnone : ∀ e ∈ ([] : List KeyRecord), e.isDoomed path now = false := List.forall_mem_nil _
  induction entries generalizing report with
  | nil => exact .stops hnone (.inr rfl)
  | cons first rest ih =>
    have hrest := ih (report.passing path now [first])
    by_cases howns : MountTable.owns path first.key = true
    · by_cases hvalid : first.record.isValidAt now = true
      · have hpassing : report.passing path now [first] = { report with valid := report.valid + 1 } := by
          simp [SweepReport.passing, KeyRecord.isKept, howns, hvalid]
        cases cancelled with
        | true =>
          rw [next, if_neg (by simp [howns]), if_pos rfl]
          exact .stops hnone (.inl rfl)
        | false =>
          rw [next, if_neg (by simp [howns]), if_neg (by simp), if_pos hvalid, ← hpassing]
          exact hrest.cons (by simp [KeyRecord.isDoomed, hvalid])
      · cases cancelled with
        | true =>
          rw [next, if_neg (by simp [howns]), if_pos rfl]
          exact .stops hnone (.inl rfl)
        | false =>
          rw [next, if_neg (by simp [howns]), if_neg (by simp), if_neg hvalid]
          exact .doomed hnone (by simp [KeyRecord.isDoomed, howns, hvalid])
    · have hpassing : report.passing path now [first] = report := by
        simp [SweepReport.passing, KeyRecord.isKept, howns]
      rw [hpassing] at hrest
      rw [next, if_pos (by simp [howns])]
      refine Finds.cons ?_ (by simp [KeyRecord.isDoomed, howns])
      rwa [hpassing]

end MountSweep

/-- The shares of passes, the latest first. -/
def shares (passes : List MountPass) : SweepReport := passes.foldr (fun pass total => total.merge pass.share) {}

@[simp] theorem shares_cons (pass : MountPass) (passes : List MountPass) :
    shares (pass :: passes) = (shares passes).merge pass.share := rfl

/-! ### Passes -/

/-- What can happen to a job that has asked for the lock of a store. -/
inductive Claimed (c : Cache) (id : JobId) (job : Job) : Stage → Stage → List Shelf → Prop
  | grant {store visit shelf next shelf'} (hs : c.shelves[store]? = some shelf)
      (hc : c.isCancelled job.token = false) (hv : Visits c id store shelf visit next shelf') :
      Claimed c id job (.queued store visit) next (c.shelves.set store shelf')
  | call {store visit due call shelf} (hs : c.shelves[store]? = some shelf) (hc : visit.call? = some call) :
      Claimed c id job (.pausing store visit due) (.returned store visit (shelf.perform call).1)
        (c.shelves.set store (shelf.perform call).2)
  | stay {store visit reply visit' shelf next shelf'} (hs : c.shelves[store]? = some shelf)
      (h : visit.next c.clock (c.isCancelled job.token) reply = .stay visit')
      (hv : Visits c id store shelf visit' next shelf') :
      Claimed c id job (.returned store visit reply) next (c.shelves.set store shelf')
  | leave {stage store shelf turn} (hs : c.shelves[store]? = some shelf) (h : Leaves c job stage turn) :
      Claimed c id job stage turn.stage (c.shelves.set store (shelf.left id))

theorem Transition.claimed {c : Cache} {id : JobId} {job : Job} {old new : Stage} {shelves : List Shelf}
    (ht : Transition c id job old new shelves) {store : Nat} (hk : old.claim? = some store) :
    Claimed c id job old new shelves := by
  have hwants {s : Nat} {visit : Visit} (hw : Wants c job old s visit) : Claimed c id job old new shelves := by
    rw [Cache.claim?_wants hw] at hk
    cases hk
  cases ht with
  | aside ha =>
    rw [(Cache.claim?_aside ha).1] at hk
    cases hk
  | refuse hw => exact hwants hw
  | cancel hw => exact hwants hw
  | queue hw => exact hwants hw
  | enter hw => exact hwants hw
  | grant hs hc _ hv => exact .grant hs hc hv
  | call hs hc => exact .call hs hc
  | stay hs h hv => exact .stay hs h hv
  | leave _ hs h => exact .leave hs h

namespace MountPass

/-- The pass has dealt with these entries of its listing, and the report tells what it has done. -/
structure Reports (pass : MountPass) (listing : Showing) (passed : List KeyRecord) (report : SweepReport) :
    Prop where
  keys : pass.deletions.map (·.key) = (passed.filter (·.isDoomed pass.path listing.now)).map (·.key)
  deleted : report.deleted = pass.removals
  failed : report.failed = pass.refusals
  valid : report.valid = passed.countP (·.isKept pass.path listing.now)
  skipped : report.skippedMounts = 0

/-- What is known of a pass that has left its mount. -/
inductive Closed (cancelled : Bool) (pass : MountPass) : Prop
  | swept {listing passed rest} (hf : pass.fate = some .swept) (hl : pass.listing = some listing)
      (he : listing.entries = passed ++ rest) (hr : pass.Reports listing passed pass.share)
      (hc : cancelled = true ∨ rest = [])
  | failed (hf : pass.fate = some .failed) (hl : pass.listing = none) (hd : pass.deletions = [])
      (hs : pass.share = { skippedMounts := 1 })
  | expired (hf : pass.fate = some .expired) (hs : pass.share = { skippedMounts := 1 })

/-- The pass has not left its mount. -/
structure IsOpen (pass : MountPass) : Prop where
  fate : pass.fate = none
  share : pass.share = {}

theorem IsOpen.delete {pass : MountPass} (h : pass.IsOpen) (deletion : Deletion) :
    IsOpen { pass with deletions := pass.deletions ++ [deletion] } := ⟨h.fate, h.share⟩

/-- What is known of the pass of a sweep that is in a mount. -/
inductive At (cycle : SweepCycle) : MountPass → Stage → Prop
  | queued {path store} : At cycle { path, store } (.queued store (.list path cycle))
  | pausing {path store due} : At cycle { path, store } (.pausing store (.list path cycle) due)
  | listed {path store reply} : At cycle { path, store } (.returned store (.list path cycle) reply)
  | deleting {pass listing passed entry rest report due} (ho : pass.IsOpen) (hl : pass.listing = some listing)
      (he : listing.entries = passed ++ entry :: rest) (hd : entry.isDoomed pass.path listing.now = true)
      (hr : pass.Reports listing passed report) :
      At cycle pass (.pausing pass.store (.evict entry.key ⟨pass.path, listing.now, rest, report⟩ cycle) due)
  | deleted {pass listing passed entry rest report reply} (ho : pass.IsOpen) (hl : pass.listing = some listing)
      (he : listing.entries = passed ++ entry :: rest) (hd : entry.isDoomed pass.path listing.now = true)
      (hr : pass.Reports listing (passed ++ [entry]) (MountSweep.count report reply)) :
      At cycle pass (.returned pass.store (.evict entry.key ⟨pass.path, listing.now, rest, report⟩ cycle) reply)

/-- What a turn makes of a pass: it goes on in its mount, it leaves the mount, or the clock shows no time. -/
inductive Goes (cycle : SweepCycle) (cancelled : Bool) (pass : MountPass) : Stage → Prop
  | within {new} (hk : new.sweeping? = some (pass.store, cycle)) (h : pass.At cycle new) : Goes cycle cancelled pass new
  | left (hc : pass.Closed cancelled) : Goes cycle cancelled pass (.between (cycle.add pass.share))
  | broken (hp : pass = { path := pass.path, store := pass.store }) : Goes cycle cancelled pass (.finished .broken)

theorem Closed.mono {cancelled cancelled' : Bool} {pass : MountPass} (h : pass.Closed cancelled)
    (hc : cancelled = true → cancelled' = true) : pass.Closed cancelled' := by
  cases h with
  | swept hf hl he hr hend => exact .swept hf hl he hr (hend.imp_left hc)
  | failed hf hl hd hs => exact .failed hf hl hd hs
  | expired hf hs => exact .expired hf hs

namespace Reports

variable {pass : MountPass} {listing : Showing} {passed : List KeyRecord} {report : SweepReport}

theorem begin (hd : pass.deletions = []) : pass.Reports listing [] {} := by
  constructor <;> simp [hd, removals, refusals]

/-- The pass comes by entries that are not doomed. -/
theorem passing (h : pass.Reports listing passed report) {skipped : List KeyRecord}
    (hskipped : ∀ e ∈ skipped, e.isDoomed pass.path listing.now = false) :
    pass.Reports listing (passed ++ skipped) (report.passing pass.path listing.now skipped) where
  keys := by
    have hnone : skipped.filter (·.isDoomed pass.path listing.now) = [] := by
      rw [List.filter_eq_nil_iff]
      intro e he
      simp [hskipped e he]
    rw [h.keys, List.filter_append, hnone, List.append_nil]
  deleted := h.deleted
  failed := h.failed
  valid := by
    show report.valid + _ = _
    rw [h.valid, List.countP_append]
  skipped := h.skipped

/-- The pass deletes a doomed entry. -/
theorem delete (h : pass.Reports listing passed report) {entry : KeyRecord}
    (hd : entry.isDoomed pass.path listing.now = true) (turn : Nat) (reply : Reply) :
    Reports { pass with deletions := pass.deletions ++ [⟨turn, entry.key, reply⟩] } listing (passed ++ [entry])
      (MountSweep.count report reply) := by
  have hkept : entry.isKept pass.path listing.now = false := by
    simp only [KeyRecord.isDoomed, Bool.and_eq_true, Bool.not_eq_true'] at hd
    simp [KeyRecord.isKept, hd.2]
  constructor
  · simp [h.keys, List.filter_append, hd]
  · cases reply <;> simp [MountSweep.count, removals, Deletion.refused, h.deleted]
  · cases reply <;> simp [MountSweep.count, refusals, Deletion.refused, h.failed]
  · cases reply <;> simp [MountSweep.count, List.countP_append, hkept, h.valid]
  · cases reply <;> exact h.skipped

end Reports

section Turns

variable {c : Cache} {id : JobId} {s : Nat} {shelf shelf' : Shelf} {new : Stage} {cycle : SweepCycle}
  {pass : MountPass} {listing : Showing} {passed rest : List KeyRecord} {report : SweepReport}

/-- The sweep is about to delete a doomed entry, or it has done so. -/
private theorem visits {entry : KeyRecord} (ho : pass.IsOpen) (hl : pass.listing = some listing)
    (he : listing.entries = passed ++ entry :: rest) (hd : entry.isDoomed pass.path listing.now = true)
    (hr : pass.Reports listing passed report) (turn : Nat) (before : SweepReport) (fate : Fate) (cancelled : Bool)
    (hv : Visits c id pass.store shelf (.evict entry.key ⟨pass.path, listing.now, rest, report⟩ cycle) new shelf') :
    Goes cycle cancelled ((pass.deleted turn new).left before fate new) new := by
  cases hv with
  | pause => exact .within rfl (.deleting ho hl he hd hr)
  | @call _ call hcall =>
    cases hcall
    exact .within rfl (.deleted (ho.delete _) hl he hd (hr.delete hd turn _))

/-- The sweep goes on with what the listing has left. -/
private theorem sweepOn (cycle : SweepCycle) (hl : pass.listing = some listing)
    (he : listing.entries = passed ++ rest) (hr : pass.Reports listing passed report) (cancelled : Bool) :
    (∃ report', Visit.sweepOn pass.path listing.now cancelled report rest cycle = .move (cycle.add report') ∧
      Closed cancelled { pass with fate := some .swept, share := report' }) ∨
    ∃ passed' entry rest' report', Visit.sweepOn pass.path listing.now cancelled report rest cycle =
        .stay (.evict entry.key ⟨pass.path, listing.now, rest', report'⟩ cycle) ∧
      listing.entries = passed' ++ entry :: rest' ∧ entry.isDoomed pass.path listing.now = true ∧
      pass.Reports listing passed' report' := by
  unfold Visit.sweepOn
  have hfinds := MountSweep.next_finds pass.path listing.now cancelled report rest
  generalize MountSweep.next pass.path listing.now cancelled report rest = found at hfinds ⊢
  cases hfinds with
  | @stops skipped rest' hskipped hend =>
    have hr' := hr.passing hskipped
    refine .inl ⟨_, rfl, .swept rfl hl ?_ ⟨hr'.keys, hr'.deleted, hr'.failed, hr'.valid, hr'.skipped⟩ hend⟩
    rw [he, List.append_assoc]
  | @doomed skipped entry rest' hskipped hd =>
    refine .inr ⟨passed ++ skipped, entry, rest', _, rfl, ?_, hd, hr.passing hskipped⟩
    rw [he, List.append_assoc]

/-- A pass that gives up its mount before the listing. -/
private theorem skips (path : String) (store : Nat) (cycle : SweepCycle) (cancelled : Bool) :
    Goes cycle cancelled (({ path, store } : MountPass).left cycle.total .failed (.between cycle.skip))
      (.between cycle.skip) := by
  have hshare : cycle.skip.total.growth cycle.total = { skippedMounts := 1 } := SweepReport.growth_merge ..
  simp only [left, hshare]
  exact .left (.failed rfl rfl rfl rfl)

/-- A pass that leaves its mount with a report. -/
private theorem leaves {fate : Fate} {cancelled : Bool}
    (h : Closed cancelled { pass with fate := some fate, share := report }) :
    Goes cycle cancelled (pass.left cycle.total fate (.between (cycle.add report)))
      (.between (cycle.add report)) := by
  have hshare : (cycle.add report).total.growth cycle.total = report := SweepReport.growth_merge ..
  simp only [left, hshare]
  exact .left h

/-- A pass that has the lock asks for the listing. -/
private theorem lists {path : String} {store : Nat} {cancelled : Bool} {turn : Nat} {before : SweepReport} {fate : Fate}
    (hv : Visits c id store shelf (.list path cycle) new shelf') :
    Goes cycle cancelled ((({ path, store } : MountPass).deleted turn new).left before fate new) new := by
  cases hv with
  | pause => exact .within rfl .pausing
  | call hc =>
    cases hc
    exact .within rfl .listed

variable {job : Job} {old : Stage} {shelves : List Shelf} (turn : Nat)

/-- What becomes of a pass that goes on with what its listing has left. -/
private theorem goesOn {visit : Visit} {reply : Reply} {fate : Fate} (ho : pass.IsOpen)
    (hl : pass.listing = some listing) (he : listing.entries = passed ++ rest)
    (hr : pass.Reports listing passed report) (hfate : fate = .swept)
    (hnext : visit.next c.clock (c.isCancelled job.token) reply =
      Visit.sweepOn pass.path listing.now (c.isCancelled job.token) report rest cycle)
    (ht : Claimed c id job (.returned pass.store visit reply) new shelves) :
    Goes cycle (c.isCancelled job.token) ((pass.deleted turn new).left cycle.total fate new) new := by
  subst hfate
  rcases sweepOn cycle hl he hr (c.isCancelled job.token) with
    ⟨report', heq, hclosed⟩ | ⟨passed', entry, rest', report', heq, he', hd, hr'⟩
  · have hmove := hnext.trans heq
    cases ht with
    | stay _ hstay => cases hmove.symm.trans hstay
    | leave _ h =>
      cases h with
      | next hturn =>
        cases hmove.symm.trans hturn
        exact leaves hclosed
  · have hstay := hnext.trans heq
    cases ht with
    | stay _ hturn hv =>
      cases hstay.symm.trans hturn
      exact visits ho hl he' hd hr' turn cycle.total _ _ hv
    | leave _ h =>
      cases h with
      | next hturn hnot =>
        cases hstay.symm.trans hturn
        exact absurd rfl (hnot _)

/-- What becomes of a pass in a turn in which its sweep is in the mount. -/
theorem At.turned (h : pass.At cycle old) (ht : Transition c id job old new shelves) :
    Goes cycle (c.isCancelled job.token) (pass.turned turn c.clock.read? cycle.total old new) new := by
  cases h with
  | queued =>
    cases ht.claimed rfl with
    | grant _ _ hv => exact lists hv
    | leave _ h =>
      cases h with
      | cancelled => exact skips ..
  | pausing =>
    cases ht.claimed rfl with
    | call _ hc =>
      cases hc
      exact .within rfl .listed
    | leave _ h => cases h
  | @listed path store reply =>
    have hclaimed := ht.claimed rfl
    have hfailed (hfate : (Stage.returned store (.list path cycle) reply).fate = .failed)
        (htaken : ({ path, store } : MountPass).takenUp turn c.clock.read?
          (.returned store (.list path cycle) reply) = { path, store })
        (hmove : (Visit.list path cycle).next c.clock (c.isCancelled job.token) reply = .move cycle.skip) :
        Goes cycle (c.isCancelled job.token) (({ path, store } : MountPass).turned turn c.clock.read? cycle.total
          (.returned store (.list path cycle) reply) new) new := by
      rw [MountPass.turned, htaken, hfate]
      cases hclaimed with
      | stay _ hstay => cases hmove.symm.trans hstay
      | leave _ h =>
        cases h with
        | next hturn =>
          cases hmove.symm.trans hturn
          exact skips ..
    cases reply with
    | listed entries =>
      cases hnow : c.clock.read? with
      | none =>
        have hbroken : (Visit.list path cycle).next c.clock (c.isCancelled job.token) (.listed entries) =
            .answer .broken := by
          simp [Visit.next, Visit.listOn, hnow]
        cases hclaimed with
        | stay _ hstay => cases hbroken.symm.trans hstay
        | leave _ h =>
          cases h with
          | next hturn =>
            cases hbroken.symm.trans hturn
            exact .broken rfl
      | some now =>
        have hnext : (Visit.list path cycle).next c.clock (c.isCancelled job.token) (.listed entries) =
            Visit.sweepOn path now (c.isCancelled job.token) {} entries cycle := by
          simp only [Visit.next, Visit.listOn, hnow]
        have hopen : IsOpen { path, store, listing := some ⟨turn, now, entries⟩ } := ⟨rfl, rfl⟩
        exact goesOn turn hopen rfl (List.nil_append entries).symm (.begin rfl) rfl hnext hclaimed
    | _ => exact hfailed rfl rfl rfl
  | deleting ho hl he hd hr =>
    cases ht.claimed rfl with
    | call _ hc =>
      cases hc
      exact .within rfl (.deleted (ho.delete _) hl he hd (hr.delete hd turn _))
    | leave _ h => cases h
  | @deleted _ listing passed entry rest report reply ho hl he hd hr =>
    have hsplit : listing.entries = (passed ++ [entry]) ++ rest := by rw [he]; simp
    exact goesOn turn ho hl hsplit hr rfl rfl (ht.claimed rfl)

/-- A turn between two mounts ends the round, or it begins a pass over the next mount. -/
theorem begins (ht : Transition c id job (.between cycle) new shelves) :
    ((cycle.rest = [] ∨ c.isCancelled job.token = true) ∧
      (new = .finished (.swept cycle.total) ∧ job.request ≠ .sweeper ∨
        new = .idle (c.after c.interval) ∧ job.request = .sweeper)) ∨
    ∃ path s rest, cycle.rest = (path, s) :: rest ∧ (∀ answer, new ≠ .finished answer) ∧
      Goes { cycle with rest, deadline := c.time + c.timeout } (c.isCancelled job.token)
        (({ path, store := s } : MountPass).turned turn c.clock.read? cycle.total (.between cycle) new) new := by
  cases ht with
  | aside ha =>
    left
    cases ha with
    | swept h hr => exact ⟨h, .inl ⟨rfl, hr⟩⟩
    | pause h hr => exact ⟨h, .inr ⟨rfl, hr⟩⟩
  | @refuse _ s _ _ _ hw =>
    cases hw with
    | @mount _ path _ rest hrest =>
      have hgoes := skips path s { cycle with rest, deadline := c.time + c.timeout } (c.isCancelled job.token)
      exact .inr ⟨path, s, rest, hrest, by simp [Visit.fail, Visit.Turn.stage], hgoes⟩
  | cancel hw _ _ hc =>
    cases hw with
    | mount _ hnot =>
      rw [hnot] at hc
      cases hc
  | @queue _ s _ _ _ hw =>
    cases hw with
    | @mount _ path _ rest hrest => exact .inr ⟨path, s, rest, hrest, by simp, .within rfl .queued⟩
  | @enter _ s _ _ _ _ hw _ _ _ _ hv =>
    cases hw with
    | @mount _ path _ rest hrest =>
      refine .inr ⟨path, s, rest, hrest, ?_, lists hv⟩
      cases hv <;> simp
  | leave hk => cases hk

end Turns

end MountPass

/-! ### Rounds -/

/-- The passes have gone over the table up to the mounts that are left, and the report is the sum of their
shares. -/
structure Covers (table : List (String × Nat)) (cancelled : Bool) (passes : List MountPass)
    (rest : List (String × Nat)) (total : SweepReport) : Prop where
  closed : ∀ pass ∈ passes, pass.Closed cancelled
  places : (passes.map MountPass.place).reverse ++ rest = table
  total : total = shares passes

/-- What is known of a round that has come to its end. -/
structure Round.Over (table : List (String × Nat)) (cancelled : Bool) (round : Round) : Prop where
  ended : ∃ turn report rest, round.ended = some (turn, report) ∧ Covers table cancelled round.passes rest report ∧
    (rest = [] ∨ cancelled = true)

/-- The log of a job agrees with its stage. -/
inductive Tracks (table : List (String × Nat)) (request : Request) (cancelled : Bool) : Stage → List Round → Prop
  | away {stage} (hr : ¬request.Sweeps) (hs : request.Stands stage) : Tracks table request cancelled stage []
  | ready : Tracks table request cancelled .ready []
  | resting {stage rounds} (hr : request = .sweeper) (hs : (∃ due, stage = .idle due) ∨ stage = .finished .ended)
      (ho : ∀ round ∈ rounds, round.Over table cancelled) : Tracks table request cancelled stage rounds
  | between {cycle begun passes older} (hr : request.Sweeps)
      (hc : Covers table cancelled passes cycle.rest cycle.total)
      (ho : ∀ round ∈ older, round.Over table cancelled) (h1 : request = .sweep → older = []) :
      Tracks table request cancelled (.between cycle) ({ begun, passes } :: older)
  | within {stage cycle begun pass passes older} (hr : request.Sweeps)
      (hk : stage.sweeping? = some (pass.store, cycle)) (hp : pass.At cycle stage)
      (hc : Covers table cancelled passes (pass.place :: cycle.rest) cycle.total)
      (ho : ∀ round ∈ older, round.Over table cancelled) (h1 : request = .sweep → older = []) :
      Tracks table request cancelled stage ({ begun, passes := pass :: passes } :: older)
  | swept {turn report round} (hr : request = .sweep) (hn : round.ended = some (turn, report))
      (ho : round.Over table cancelled) : Tracks table request cancelled (.finished (.swept report)) [round]
  | broken {begun path store passes rest total older} (hr : request.Sweeps)
      (hc : Covers table cancelled passes ((path, store) :: rest) total)
      (ho : ∀ round ∈ older, round.Over table cancelled) :
      Tracks table request cancelled (.finished .broken) ({ begun, passes := { path, store } :: passes } :: older)

/-- What a turn of a job does to its log. -/
inductive Logged (c : Cache) (job : Job) (turn : Nat) (new : Stage) : List Round → List Round → Prop
  | outside {rounds} (ho : job.stage.cycle? = none) (hn : new.cycle? = none) : Logged c job turn new rounds rounds
  | start {rounds} (ho : job.stage.cycle? = none) (hn : new = .between c.fullCycle) :
      Logged c job turn new rounds ({ begun := turn } :: rounds)
  | finish {cycle begun passes older} (ho : job.stage = .between cycle)
      (hc : Covers c.mounts.mounts (c.isCancelled job.token) passes cycle.rest cycle.total)
      (he : cycle.rest = [] ∨ c.isCancelled job.token = true)
      (hn : new = .finished (.swept cycle.total) ∨ ∃ due, new = .idle due) :
      Logged c job turn new ({ begun, passes } :: older)
        ({ begun, passes, ended := some (turn, cycle.total) } :: older)
  | enter {cycle begun passes older path store rest} (ho : job.stage = .between cycle)
      (hr : cycle.rest = (path, store) :: rest)
      (hg : (({ path, store } : MountPass).turned turn c.clock.read? cycle.total job.stage new).Goes
        { cycle with rest, deadline := c.time + c.timeout } (c.isCancelled job.token) new) :
      Logged c job turn new ({ begun, passes } :: older)
        ({ begun, passes := ({ path, store } : MountPass).turned turn c.clock.read? cycle.total job.stage new ::
          passes } :: older)
  | within {cycle begun pass passes older} (hk : job.stage.sweeping? = some (pass.store, cycle))
      (hp : pass.At cycle job.stage)
      (hg : (pass.turned turn c.clock.read? cycle.total job.stage new).Goes cycle (c.isCancelled job.token) new) :
      Logged c job turn new ({ begun, passes := pass :: passes } :: older)
        ({ begun, passes := pass.turned turn c.clock.read? cycle.total job.stage new :: passes } :: older)
  | expire {cycle begun pass passes older} (hk : job.stage.sweeping? = some (pass.store, cycle))
      (hp : pass.At cycle job.stage) (hn : new = .between cycle.skip) :
      Logged c job turn new ({ begun, passes := pass :: passes } :: older)
        ({ begun, passes := { pass with fate := some .expired, share := { skippedMounts := 1 } } :: passes } ::
          older)

section Rounds

variable {table : List (String × Nat)} {request : Request} {cancelled cancelled' : Bool}

theorem Covers.mono {passes : List MountPass} {rest : List (String × Nat)} {total : SweepReport}
    (h : Covers table cancelled passes rest total) (hc : cancelled = true → cancelled' = true) :
    Covers table cancelled' passes rest total :=
  ⟨fun pass hp => (h.closed pass hp).mono hc, h.places, h.total⟩

theorem Round.Over.mono {round : Round} (h : round.Over table cancelled) (hc : cancelled = true → cancelled' = true) :
    round.Over table cancelled' := by
  obtain ⟨turn, report, rest, hended, hcovers, hrest⟩ := h.ended
  exact ⟨turn, report, rest, hended, hcovers.mono hc, hrest.imp_right hc⟩

theorem Tracks.mono {stage : Stage} {rounds : List Round} (h : Tracks table request cancelled stage rounds)
    (hc : cancelled = true → cancelled' = true) : Tracks table request cancelled' stage rounds := by
  have hover {rounds : List Round} (ho : ∀ round ∈ rounds, round.Over table cancelled) :
      ∀ round ∈ rounds, round.Over table cancelled' := fun round hr => (ho round hr).mono hc
  cases h with
  | away hr hs => exact .away hr hs
  | ready => exact .ready
  | resting hr hs ho => exact .resting hr hs (hover ho)
  | between hr hcov ho h1 => exact .between hr (hcov.mono hc) (hover ho) h1
  | within hr hk hp hcov ho h1 => exact .within hr hk hp (hcov.mono hc) (hover ho) h1
  | swept hr hn ho => exact .swept hr hn (ho.mono hc)
  | broken hr hcov ho => exact .broken hr (hcov.mono hc) (hover ho)

/-- A pass that leaves its mount is one of those that have gone over the table. -/
theorem Covers.cons {pass : MountPass} {passes : List MountPass} {rest : List (String × Nat)} {total : SweepReport}
    (h : Covers table cancelled passes (pass.place :: rest) total) (hp : pass.Closed cancelled) :
    Covers table cancelled (pass :: passes) rest (total.merge pass.share) where
  closed := by
    intro other ho
    rcases List.mem_cons.1 ho with rfl | ho
    · exact hp
    · exact h.closed other ho
  places := by
    rw [← h.places]
    simp
  total := by rw [shares_cons, h.total]

/-- The log after a turn of the pass. -/
private theorem Tracks.of_goes {new : Stage} {cycle : SweepCycle} {begun : Nat} {pass : MountPass}
    {passes : List MountPass} {older : List Round} (hr : request.Sweeps) (hp : pass.Goes cycle cancelled new)
    (hc : Covers table cancelled passes (pass.place :: cycle.rest) cycle.total)
    (ho : ∀ round ∈ older, round.Over table cancelled) (h1 : request = .sweep → older = []) :
    Tracks table request cancelled new ({ begun, passes := pass :: passes } :: older) := by
  cases hp with
  | within hk hat => exact .within hr hk hat hc ho h1
  | left hclosed => exact .between hr (hc.cons hclosed) ho h1
  | broken heq =>
    rw [heq]
    exact .broken hr hc ho

variable {c : Cache} {id : JobId} {job : Job} {old new : Stage} {shelves : List Shelf} {rounds : List Round}

theorem Round.entered_of_rest {turn : Nat} {now : Option Instant} {cycle : SweepCycle} {round : Round}
    {path : String} {store : Nat} {rest : List (String × Nat)} (hrest : cycle.rest = (path, store) :: rest)
    (hidle : ∀ due, new ≠ .idle due) (hover : ∀ answer, new ≠ .finished answer) :
    round.entered turn now cycle new = { round with
      passes := ({ path, store } : MountPass).turned turn now cycle.total (.between cycle) new ::
        round.passes } := by
  unfold entered
  rw [hrest]
  cases new with
  | idle due => exact absurd rfl (hidle due)
  | finished answer => exact absurd rfl (hover answer)
  | _ => rfl

theorem Stage.not_between {stage : Stage} (h : stage.cycle? = none) (cycle : SweepCycle) :
    stage ≠ .between cycle := by
  rintro rfl
  cases h

/-- A turn outside of all rounds begins one at most. -/
theorem Round.turned_outside {turn : Nat} {now : Option Instant} (ho : old.cycle? = none) (hne : old ≠ new) :
    turned turn now old new rounds = started turn new rounds := by
  unfold turned
  rw [if_neg hne, Stage.sweeping?_of_cycle? ho]
  cases old with
  | between => cases ho
  | _ => rfl

theorem Round.started_outside {turn : Nat} (hn : new.cycle? = none) : started turn new rounds = rounds := by
  cases new with
  | between => cases hn
  | _ => rfl

/-- A turn out of a mount changes the latest pass. -/
theorem Round.turned_within {turn : Nat} {now : Option Instant} {store : Nat} {cycle : SweepCycle}
    (hk : old.sweeping? = some (store, cycle)) (hne : old ≠ new) :
    turned turn now old new rounds =
      rounds.modifyHead (onPass (MountPass.turned turn now cycle.total old new)) := by
  unfold turned
  rw [if_neg hne, hk]

/-- The end of the time for a mount closes the latest pass. -/
theorem Round.expired_within {store : Nat} {cycle : SweepCycle} {begun : Nat} {pass : MountPass}
    {passes : List MountPass} {older : List Round} (hk : old.sweeping? = some (store, cycle)) :
    expired old (.between cycle.skip) ({ begun, passes := pass :: passes } :: older) =
      { begun, passes := { pass with fate := some .expired, share := { skippedMounts := 1 } } :: passes } :: older := by
  have hne : old ≠ .between cycle.skip := by
    rintro rfl
    cases hk
  have hshare : cycle.skip.total.growth cycle.total = { skippedMounts := 1 } := SweepReport.growth_merge ..
  unfold expired
  rw [hk]
  dsimp only
  rw [if_neg hne, ← hshare]
  rfl

/-- Only the sweeps have a log. -/
theorem Tracks.eq_nil {stage : Stage} (h : Tracks table request cancelled stage rounds) (hr : ¬request.Sweeps) :
    rounds = [] := by
  cases h with
  | away => rfl
  | ready => rfl
  | resting hr' => exact absurd (.inr hr') hr
  | between hr' => exact absurd hr' hr
  | within hr' => exact absurd hr' hr
  | swept hr' => exact absurd (.inl hr') hr
  | broken hr' => exact absurd hr' hr

/-- The log of a sweep that is in a mount has its pass over this mount in front. -/
theorem Tracks.of_sweeping {stage : Stage} (h : Tracks table request cancelled stage rounds) {store : Nat}
    {cycle : SweepCycle} (hk : stage.sweeping? = some (store, cycle)) :
    ∃ begun pass passes older, rounds = { begun, passes := pass :: passes } :: older ∧ pass.store = store ∧
      pass.At cycle stage ∧ request.Sweeps ∧ Covers table cancelled passes (pass.place :: cycle.rest) cycle.total ∧
      (∀ round ∈ older, round.Over table cancelled) ∧ (request = .sweep → older = []) := by
  cases h with
  | away hr hs => exact absurd (hs.sweeps (Stage.cycle?_of_sweeping? hk)) hr
  | ready => cases hk
  | resting _ hstage => rcases hstage with ⟨due, rfl⟩ | rfl <;> cases hk
  | between => cases hk
  | within hr hk' hp hc ho h1 =>
    cases hk'.symm.trans hk
    exact ⟨_, _, _, _, rfl, rfl, hp, hr, hc, ho, h1⟩
  | swept => cases hk
  | broken => cases hk

/-- After a reply a sweep does not do again what it has done. -/
private theorem Visit.next_ne_stay {visit : Visit} {clock : Clock} {reply : Reply} {store : Nat}
    {cycle : SweepCycle} (hk : (Stage.returned store visit reply).cycle? = some cycle) :
    visit.next clock cancelled reply ≠ .stay visit := by
  have hsweepOn {path : String} {now : Instant} {report : SweepReport} {rest : List KeyRecord}
      {cycle cycle' : SweepCycle} {key : String} {mount : MountSweep}
      (h : sweepOn path now cancelled report rest cycle = .stay (.evict key mount cycle')) :
      mount.rest.length < rest.length := by
    rcases sweepOn_cases path now cancelled report rest cycle with
      ⟨report', hmove, -⟩ | ⟨entry, mount', skipped, hstay, -, -, -, hsplit, -⟩
    · cases h.symm.trans hmove
    · cases h.symm.trans hstay
      rw [hsplit, List.length_append, List.length_cons]
      omega
  intro h
  cases visit with
  | list path cycle =>
    cases reply with
    | listed entries =>
      simp only [next, listOn] at h
      split at h
      next => cases h
      next =>
        unfold sweepOn at h
        split at h <;> cases h
    | _ => cases h
  | evict key mount cycle => exact absurd (hsweepOn h) (Nat.lt_irrefl _)
  | _ => cases hk

/-- A turn in a round takes its job to another stage. -/
theorem Transition.ne (ht : Transition c id job old new shelves) {cycle : SweepCycle}
    (hc : old.cycle? = some cycle) : old ≠ new := by
  have hskip {store : Nat} {visit : Visit} (error : CacheError) (hw : Wants c job old store visit) :
      old ≠ (visit.fail error).stage := by
    cases hw with
    | call => cases hc
    | @mount cycle' path store rest hrest =>
      intro heq
      have hlength := congrArg List.length hrest
      have hsame : cycle' = SweepCycle.skip { cycle' with rest, deadline := c.time + c.timeout } :=
        Stage.between.inj heq
      rw [hsame] at hlength
      simp [SweepCycle.skip] at hlength
  cases ht with
  | aside ha => cases ha <;> simp
  | refuse hw => exact hskip _ hw
  | cancel hw => exact hskip _ hw
  | queue hw =>
    cases hw with
    | call => cases hc
    | mount => simp
  | enter hw _ _ _ _ hv =>
    cases hw with
    | call => cases hc
    | mount => cases hv <;> simp
  | grant _ _ _ hv => cases hv <;> simp
  | call => simp
  | stay _ hnext hv =>
    cases hv with
    | call =>
      intro heq
      cases heq
      exact Visit.next_ne_stay hc hnext
    | _ => simp
  | leave hk => exact Stage.ne_turn hk _

/-- The log of a job that is no sweep stays as it is. -/
theorem Round.turned_away (hr : ¬job.request.Sweeps) (hs : job.request.Stands old) (turn : Nat)
    (now : Option Instant) (ht : Transition c id job old new shelves) :
    Round.turned turn now old new rounds = rounds ∧ old.cycle? = none ∧ new.cycle? = none := by
  have hcycle {stage : Stage} (hstands : job.request.Stands stage) : stage.cycle? = none := by
    rw [Option.eq_none_iff_forall_ne_some]
    exact fun cycle hk => hr (hstands.sweeps hk)
  have hnew := hcycle (hs.step ht)
  refine ⟨?_, hcycle hs, hnew⟩
  by_cases hne : old = new
  · unfold turned
    rw [if_pos hne]
  · rw [turned_outside (hcycle hs) hne, started_outside hnew]

/-- The log after a turn of a job agrees with its stage again. -/
structure Tracks.Turned (c : Cache) (job : Job) (turn : Nat) (new : Stage) (rounds rounds' : List Round) : Prop where
  tracks : Tracks c.mounts.mounts job.request (c.isCancelled job.token) new rounds'
  logged : Logged c job turn new rounds rounds'

/-- A sweep begins its first round, or the sweeper has its first pause. -/
private theorem Tracks.turned_ready (hr : job.request.Sweeps) (turn : Nat) (hs : job.stage = .ready)
    (ht : Transition c id job .ready new shelves) :
    Turned c job turn new [] (Round.turned turn c.clock.read? .ready new []) := by
  have hnot (hr' : job.request ≠ .sweep ∧ job.request ≠ .sweeper) : False := by
    rcases hr with heq | heq
    · exact hr'.1 heq
    · exact hr'.2 heq
  have hwants {s : Nat} {visit : Visit} (hw : Wants c job .ready s visit) : False := by
    cases hw with
    | call hroute => rcases hr with heq | heq <;> rw [heq] at hroute <;> cases hroute
  have hout : job.stage.cycle? = none := by rw [hs]; rfl
  cases ht with
  | aside ha =>
    cases ha with
    | answer _ hr' => exact (hnot ⟨hr'.1, hr'.2.1⟩).elim
    | sweep =>
      rw [Round.turned_outside rfl (by simp)]
      exact ⟨.between hr ⟨List.forall_mem_nil _, rfl, rfl⟩ (List.forall_mem_nil _) fun _ => rfl,
        .start hout rfl⟩
    | sweeper hr' =>
      rw [Round.turned_outside rfl (by simp)]
      exact ⟨.resting hr' (.inl ⟨_, rfl⟩) (List.forall_mem_nil _), .outside hout rfl⟩
    | shutdown hr' => exact (hnot (by simp [hr'])).elim
    | await hr' => exact (hnot (by simp [hr'])).elim
  | refuse hw => exact (hwants hw).elim
  | cancel hw => exact (hwants hw).elim
  | queue hw => exact (hwants hw).elim
  | enter hw => exact (hwants hw).elim
  | leave hk => cases hk

/-- The sweeper begins another round, or it stops. -/
private theorem Tracks.turned_resting (hr : job.request = .sweeper) (turn due : Nat) (hs : job.stage = .idle due)
    (ho : ∀ round ∈ rounds, round.Over c.mounts.mounts (c.isCancelled job.token))
    (ht : Transition c id job (.idle due) new shelves) :
    Turned c job turn new rounds (Round.turned turn c.clock.read? (.idle due) new rounds) := by
  have hout : job.stage.cycle? = none := by rw [hs]; rfl
  cases ht with
  | aside ha =>
    cases ha with
    | stop =>
      rw [Round.turned_outside rfl (by simp)]
      exact ⟨.resting hr (.inr rfl) ho, .outside hout rfl⟩
    | wake =>
      rw [Round.turned_outside rfl (by simp)]
      refine ⟨.between (.inr hr) ⟨List.forall_mem_nil _, rfl, rfl⟩ ho fun h => ?_, .start hout rfl⟩
      rw [hr] at h
      cases h
  | refuse hw => cases hw
  | cancel hw => cases hw
  | queue hw => cases hw
  | enter hw => cases hw
  | leave hk => cases hk

/-- A sweep between two mounts ends its round or comes to the next mount. -/
private theorem Tracks.turned_between {cycle : SweepCycle} {begun : Nat} {passes : List MountPass}
    {older : List Round} (hr : job.request.Sweeps) (turn : Nat) (hs : job.stage = .between cycle)
    (hc : Covers c.mounts.mounts (c.isCancelled job.token) passes cycle.rest cycle.total)
    (ho : ∀ round ∈ older, round.Over c.mounts.mounts (c.isCancelled job.token))
    (h1 : job.request = .sweep → older = []) (ht : Transition c id job (.between cycle) new shelves) :
    Turned c job turn new ({ begun, passes } :: older)
      (Round.turned turn c.clock.read? (.between cycle) new ({ begun, passes } :: older)) := by
  have heq : Round.turned turn c.clock.read? (.between cycle) new ({ begun, passes } :: older) =
      Round.entered turn c.clock.read? cycle new { begun, passes } :: older := by
    unfold Round.turned
    rw [if_neg (ht.ne rfl)]
    rfl
  rw [heq]
  rcases MountPass.begins turn ht with ⟨hend, hnew⟩ | ⟨path, s, rest, hrest, hover, hgoes⟩
  · have hover : Round.Over c.mounts.mounts (c.isCancelled job.token)
        { begun, passes, ended := some (turn, cycle.total) } := ⟨turn, cycle.total, cycle.rest, rfl, hc, hend⟩
    rcases hnew with ⟨rfl, hr'⟩ | ⟨rfl, hr'⟩
    · have hsweep : job.request = .sweep := hr.resolve_right hr'
      rw [h1 hsweep]
      exact ⟨.swept hsweep rfl hover, .finish hs hc hend (.inl rfl)⟩
    · refine ⟨.resting hr' (.inl ⟨_, rfl⟩) fun other hother => ?_, .finish hs hc hend (.inr ⟨_, rfl⟩)⟩
      rcases List.mem_cons.1 hother with rfl | hother
      · exact hover
      · exact ho other hother
  · have hidle : ∀ due, new ≠ .idle due := by
      rintro due rfl
      cases hgoes with
      | within hk => cases hk
    rw [Round.entered_of_rest hrest hidle hover]
    rw [hrest] at hc
    have hcovers : Covers c.mounts.mounts (c.isCancelled job.token) passes
        ((({ path, store := s } : MountPass).turned turn c.clock.read? cycle.total (.between cycle) new).place ::
          rest) cycle.total := by
      rw [MountPass.place_turned]
      exact hc
    refine ⟨of_goes hr hgoes hcovers ho h1, ?_⟩
    rw [← hs] at hgoes ⊢
    exact .enter hs hrest hgoes

/-- Every turn of a job keeps its log in agreement with its stage. -/
theorem Tracks.turned (h : Tracks c.mounts.mounts job.request (c.isCancelled job.token) job.stage rounds)
    (turn : Nat) (ht : Transition c id job job.stage new shelves) :
    Turned c job turn new rounds (Round.turned turn c.clock.read? job.stage new rounds) := by
  have haway (hr : ¬job.request.Sweeps) (hs : job.request.Stands job.stage) :
      Turned c job turn new [] (Round.turned turn c.clock.read? job.stage new []) := by
    obtain ⟨heq, hold, hnew⟩ := Round.turned_away hr hs turn c.clock.read? ht
    rw [heq]
    exact ⟨.away hr (hs.step ht), .outside hold hnew⟩
  generalize hstage : job.stage = old at h ht haway ⊢
  cases h with
  | away hr hs => exact haway hr hs
  | ready =>
    by_cases hr : job.request.Sweeps
    · exact turned_ready hr turn hstage ht
    · exact haway hr trivial
  | resting hr hs ho =>
    rcases hs with ⟨due, rfl⟩ | rfl
    · exact turned_resting hr turn due hstage ho ht
    · exact absurd rfl (ht.inside.1 _)
  | between hr hc ho h1 => exact turned_between hr turn hstage hc ho h1 ht
  | within hr hk hp hc ho h1 =>
    have hgoes := hp.turned turn ht
    rw [Round.turned_within hk (ht.ne (Stage.cycle?_of_sweeping? hk))]
    refine ⟨of_goes hr hgoes ?_ ho h1, ?_⟩
    · rw [MountPass.place_turned]
      exact hc
    · rw [← hstage] at hk hp hgoes ⊢
      exact .within hk hp hgoes
  | swept => exact absurd rfl (ht.inside.1 _)
  | broken => exact absurd rfl (ht.inside.1 _)

/-- So does the end of the time for a mount. -/
theorem Tracks.expired (h : Tracks c.mounts.mounts job.request (c.isCancelled job.token) job.stage rounds)
    (turn : Nat) (hx : Expiry c id job.stage new shelves) :
    Turned c job turn new rounds (Round.expired job.stage new rounds) := by
  generalize hstage : job.stage = old at h hx ⊢
  cases hx with
  | @skip store cycle shelf hk =>
    obtain ⟨begun, pass, passes, older, rfl, rfl, hp, hr, hc, ho, h1⟩ := h.of_sweeping hk
    rw [Round.expired_within hk]
    have hclosed : MountPass.Closed (c.isCancelled job.token)
        { pass with fate := some .expired, share := { skippedMounts := 1 } } := .expired rfl rfl
    have hcovers : Covers c.mounts.mounts (c.isCancelled job.token)
        ({ pass with fate := some .expired, share := { skippedMounts := 1 } } :: passes) cycle.rest
        cycle.skip.total := Covers.cons ⟨hc.closed, hc.places, hc.total⟩ hclosed
    refine ⟨.between hr hcovers ho h1, ?_⟩
    rw [← hstage] at hk hp
    exact .expire hk hp rfl

end Rounds

namespace Cache

variable {first : Cache}

private theorem tracks_step (hu : first.Unused) {events : List Event} (event : Event) {id : JobId}
    (h : ∀ job, (first.steps events).jobs[id]? = some job → Tracks first.mounts.mounts job.request
      ((first.steps events).isCancelled job.token) job.stage (first.rounds events id))
    {job : Job} (hj : (first.steps (events ++ [event])).jobs[id]? = some job) :
    Tracks first.mounts.mounts job.request ((first.steps (events ++ [event])).isCancelled job.token) job.stage
      (first.rounds (events ++ [event]) id) := by
  have hlocks := (LocksSound.of_unused hu).steps events
  have hmounts := (LocksSound.of_unused hu).mounts_steps events
  rw [rounds_snoc]
  rw [steps_snoc] at hj ⊢
  cases hbefore : (first.steps events).jobs[id]? with
  | none =>
    rw [note_absent hbefore, rounds_absent hu hbefore, (hlocks.job_new hbefore hj).2]
    exact .ready
  | some old =>
    have hold := h old hbefore
    have hmore (hc : (first.steps events).isCancelled old.token = true) :
        ((first.steps events).step event).isCancelled old.token = true := hlocks.cancelled_step hc event
    cases hlocks.note_cases hbefore event events.length (first.rounds events) with
    | same _ hsame hr =>
      cases hj.symm.trans hsame
      rw [hr]
      exact hold.mono hmore
    | turn _ ht _ _ hnext hr =>
      cases hj.symm.trans hnext
      rw [hr]
      rw [← hmounts] at hold ⊢
      exact (hold.turned events.length ht).tracks.mono hmore
    | skip _ hx _ _ hnext hr =>
      cases hj.symm.trans hnext
      rw [hr]
      rw [← hmounts] at hold ⊢
      exact (hold.expired events.length hx).tracks.mono hmore

/-- In every run the log of a job agrees with its stage. -/
theorem tracks_steps (hu : first.Unused) (events : List Event) {id : JobId} {job : Job}
    (hj : (first.steps events).jobs[id]? = some job) :
    Tracks first.mounts.mounts job.request ((first.steps events).isCancelled job.token) job.stage
      (first.rounds events id) := by
  induction events using List.reverseRecOn generalizing job with
  | nil =>
    have hnone : first.jobs[id]? = some job := hj
    rw [hu.jobs] at hnone
    cases hnone
  | append_singleton events event ih => exact tracks_step hu event (fun _ hj => ih hj) hj

end Cache

end RoutedCache

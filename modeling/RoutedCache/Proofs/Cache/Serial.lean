import RoutedCache.Proofs.Cache.Journal
import RoutedCache.Proofs.Cache.Routing

/-!
# Stays under way

While a job is at work in a store, its stay so far, the records before it and the stage of the job agree
(`Ongoing`).  This holds as soon as the job has entered (`Ongoing.enter`), with every further call
(`Ongoing.stay`), and when the job leaves the store its stay has its answer (`Ongoing.leave`).
-/

namespace RoutedCache

section

variable (mounts : MountTable Nat) (start : Option Clock) (request : Request)

/-- The request came to this visit when its job began. -/
def Admitted (store : Nat) (visit : Visit) : Prop :=
  ∃ clock, start = some clock ∧ request.route mounts clock = .ok (store, visit)

/-- The job sweeps mounts of the table. -/
def Cycles (cycle : SweepCycle) : Prop := request.Sweeps ∧ ∀ mount ∈ cycle.rest, mount ∈ mounts.mounts

/-- What a job may want to do first in a store. -/
inductive Asks (store : Nat) : Visit → Prop
  | call {visit} (h : Admitted mounts start request store visit) : Asks store visit
  | mount {path cycle} (hm : (path, store) ∈ mounts.mounts) (h : Cycles mounts request cycle) :
      Asks store (.list path cycle)

/-- The stay does what the request asks for. -/
inductive Act.Serves (store : Nat) : Act → Prop
  | idle : Serves store .idle
  | write {entry} (h : Admitted mounts start request store (.put entry)) : Serves store (.write entry)
  | read {key now} (h : Admitted mounts start request store (.get key)) : Serves store (.read key now)
  | delete {key} (h : Admitted mounts start request store (.delete key)) : Serves store (.delete key)
  | sweep {path now left} (hr : request.Sweeps) (hm : (path, store) ∈ mounts.mounts) :
      Serves store (.sweep path now left)
  | calls {made left} (h : request = .calls store (made ++ left)) : Serves store (.calls made)

/-- A stay under way in a store with the given records before it: what has come of it and the stage of its
job. -/
inductive Ongoing (entries : KeyMap Record) (store : Nat) : Act → Stage → Prop
  | hold {due} (hr : ∃ ms, request = .hold store ms) : Ongoing entries store .idle (.holding store due)
  | put {entry} (h : Admitted mounts start request store (.put entry)) :
      Ongoing entries store (.write entry) (.returned store (.put entry) .done)
  | get {key} (h : Admitted mounts start request store (.get key)) :
      Ongoing entries store .idle (.returned store (.get key) (.found ((entries.get? key).map (⟨key, ·⟩))))
  | burn {key record now} (h : Admitted mounts start request store (.get key))
      (hget : entries.get? key = some record) (hvalid : record.isValidAt now = true)
      (hburn : record.metadata.burnAfterReading = true) :
      Ongoing entries store (.read key (some now)) (.returned store (.burn key record) .done)
  | delete {key} (h : Admitted mounts start request store (.delete key)) :
      Ongoing entries store (.delete key) (.returned store (.delete key) .done)
  | list {path cycle} (hm : (path, store) ∈ mounts.mounts) (h : Cycles mounts request cycle) :
      Ongoing entries store .idle (.returned store (.list path cycle) (.listed (entries.listing path)))
  | evict {key mount cycle passed} (hm : (mount.path, store) ∈ mounts.mounts) (h : Cycles mounts request cycle)
      (hpassed : entries.listing mount.path = passed ++ mount.rest) :
      Ongoing entries store (.sweep mount.path mount.clock mount.rest.length)
        (.returned store (.evict key mount cycle) .done)
  | calls {made call left replies reply} (hr : request = .calls store (made ++ call :: left))
      (h : (performCalls entries (made ++ [call])).1 = replies ++ [reply]) :
      Ongoing entries store (.calls (made ++ [call])) (.returned store (.calls (call :: left) replies) reply)

/-- A job outside the stores that is not over. -/
inductive Outside : Stage → Prop
  | ready : Outside .ready
  | between {cycle} (h : Cycles mounts request cycle) : Outside (.between cycle)
  | idle {due} (hr : request.Sweeps) : Outside (.idle due)
  | awaiting {other} (hr : request = .shutdown) : Outside (.awaiting other)
  | queued {store visit} (h : Asks mounts start request store visit) : Outside (.queued store visit)

end

/-! ### Sweeps and calls on a map -/

namespace KeyMap

variable (entries : KeyMap Record) (path : String) (now : Instant)

private theorem sweepAway_append (reached more : List KeyRecord) :
    entries.sweepAway path now (reached ++ more) =
      (entries.sweepAway path now reached).sweepAway path now more := by
  simp [sweepAway, List.filter_append, List.foldl_append]

private theorem sweepAway_of_valid {reached : List KeyRecord} (h : ∀ e ∈ reached, e.isDoomed path now = false) :
    entries.sweepAway path now reached = entries := by
  have hnone : reached.filter (KeyRecord.isDoomed path now) = [] := by
    rw [List.filter_eq_nil_iff]
    intro e he
    simp [h e he]
  rw [sweepAway, hnone, List.foldl_nil]

/-- A sweep that reaches its next doomed record erases that one. -/
theorem sweepAway_next {passed skipped : List KeyRecord} {entry : KeyRecord}
    (hskipped : ∀ e ∈ skipped, e.isDoomed path now = false) (h : entry.isDoomed path now = true) :
    entries.sweepAway path now (passed ++ (skipped ++ [entry])) =
      (entries.sweepAway path now passed).erase entry.key := by
  rw [sweepAway_append, sweepAway_append, sweepAway_of_valid _ _ _ hskipped]
  simp [sweepAway, h]

/-- A sweep that reaches no more doomed records has nothing left to do. -/
theorem sweepAway_rest {passed rest : List KeyRecord} (h : ∀ e ∈ rest, e.isDoomed path now = false) :
    entries.sweepAway path now (passed ++ rest) = entries.sweepAway path now passed := by
  rw [sweepAway_append, sweepAway_of_valid _ _ _ h]

end KeyMap

theorem Act.apply_sweep {entries : KeyMap Record} {path : String} {passed rest : List KeyRecord}
    (h : entries.listing path = passed ++ rest) (now : Instant) :
    (Act.sweep path now rest.length).apply entries = (none, entries.sweepAway path now passed) := by
  simp [Act.apply, h]

theorem performCalls_snoc (entries : KeyMap Record) (made : List StoreCall) (call : StoreCall) :
    performCalls entries (made ++ [call]) =
      ((performCalls entries made).1 ++ [(performEntries (performCalls entries made).2 call).1],
        (performEntries (performCalls entries made).2 call).2) := by
  simp [performCalls, List.foldl_append]

/-! ### A stay from its beginning to its end -/

theorem Request.Sweeps.not_isCall {request : Request} (h : request.Sweeps) : ¬request.IsCall := by
  rcases h with rfl | rfl <;> exact not_false

variable {mounts : MountTable Nat} {start : Option Clock} {request : Request} {entries : KeyMap Record}
  {store : Nat}

@[simp] theorem Act.onCall_turn (act : Act) (turn : Visit.Turn) : act.onCall turn.stage = act := by
  cases turn <;> rfl

/-- A record that is read is answered at once, or it is to be burned. -/
theorem Visit.readOn_cases (key : String) (now : Option Instant) (entries : KeyMap Record) :
    (∃ answer, readOn key now ((entries.get? key).map (⟨key, ·⟩)) = .answer answer ∧
      (Act.read key now).apply entries = (some answer, entries)) ∨
    ∃ record t, readOn key now ((entries.get? key).map (⟨key, ·⟩)) = .stay (.burn key record) ∧
      entries.get? key = some record ∧ now = some t ∧ record.isValidAt t = true ∧
      record.metadata.burnAfterReading = true := by
  cases hget : entries.get? key with
  | none => exact .inl ⟨_, rfl, by simp [Act.apply, hget]⟩
  | some record =>
    cases now with
    | none => exact .inl ⟨_, rfl, by simp [Act.apply, hget]⟩
    | some t =>
      simp only [Option.map_some, readOn]
      cases hvalid : record.isValidAt t with
      | false => exact .inl ⟨_, rfl, by simp [Act.apply, hget, hvalid]⟩
      | true =>
        cases hburn : record.metadata.burnAfterReading with
        | false => exact .inl ⟨_, rfl, by simp [Act.apply, hget, hvalid, hburn]⟩
        | true => exact .inr ⟨record, t, rfl, rfl, rfl, hvalid, hburn⟩

namespace Ongoing

theorem serves {act : Act} {stage : Stage} (h : Ongoing mounts start request entries store act stage) :
    act.Serves mounts start request store := by
  cases h with
  | hold => exact .idle
  | put h => exact .write h
  | get h => exact .idle
  | burn h => exact .read h
  | delete h => exact .delete h
  | list => exact .idle
  | evict hm h => exact .sweep h.1 hm
  | calls hr h => exact .calls (by rw [hr, List.append_assoc]; rfl)

/-- The first call of a visit. -/
theorem enter (entries : KeyMap Record) {visit : Visit} (h : Asks mounts start request store visit)
    {call : StoreCall} (hcall : visit.call? = some call) :
    Ongoing mounts start request entries store
        (Act.idle.onCall (.returned store visit (performEntries entries call).1))
        (.returned store visit (performEntries entries call).1) ∧
      ((Act.idle.onCall (.returned store visit (performEntries entries call).1)).apply entries).2 =
        (performEntries entries call).2 := by
  cases h with
  | call h =>
    obtain ⟨clock, hstart, hroute⟩ := h
    have hadmitted : Admitted mounts start request store visit := ⟨clock, hstart, hroute⟩
    cases Request.routed hroute with
    | write => cases hcall; exact ⟨.put hadmitted, rfl⟩
    | read => cases hcall; exact ⟨.get hadmitted, rfl⟩
    | delete => cases hcall; exact ⟨.delete hadmitted, rfl⟩
    | @calls _ left =>
      cases left with
      | nil => cases hcall
      | cons first left =>
        cases hcall
        have hcalls : Ongoing mounts start (.calls store (call :: left)) entries store (.calls ([] ++ [call]))
            (.returned store (.calls (call :: left) []) (performEntries entries call).1) := .calls rfl rfl
        exact ⟨hcalls, rfl⟩
    | hold => cases hcall
  | mount hm h => cases hcall; exact ⟨.list hm h, rfl⟩

/-- A sweep goes on to a record that it deletes. -/
private theorem sweepOn {path : String} {now : Instant} {cancelled : Bool} {report : SweepReport}
    {cycle : SweepCycle} {passed rest : List KeyRecord} {visit' : Visit} (hm : (path, store) ∈ mounts.mounts)
    (h : Cycles mounts request cycle) (hlisting : entries.listing path = passed ++ rest)
    (hnext : Visit.sweepOn path now cancelled report rest cycle = .stay visit') :
    ∃ key mount, visit' = .evict key mount cycle ∧
      Ongoing mounts start request entries store (.sweep mount.path mount.clock mount.rest.length)
        (.returned store visit' .done) ∧
      ((Act.sweep mount.path mount.clock mount.rest.length).apply entries).2 =
        (entries.sweepAway path now passed).erase key := by
  rcases Visit.sweepOn_cases path now cancelled report rest cycle with
    ⟨_, hmove, -⟩ | ⟨entry, mount, skipped, hstay, rfl, rfl, hdoomed, hrest, hskipped⟩
  · rw [hmove] at hnext
    cases hnext
  · rw [hstay] at hnext
    cases hnext
    have hpassed : entries.listing mount.path = (passed ++ (skipped ++ [entry])) ++ mount.rest := by
      rw [hlisting, hrest, List.append_assoc, List.append_assoc]
      rfl
    refine ⟨entry.key, mount, rfl, .evict hm h hpassed, ?_⟩
    rw [Act.apply_sweep hpassed, KeyMap.sweepAway_next _ _ _ hskipped hdoomed]

/-- A sweep that has come to the end of its listing. -/
private theorem sweepOver {path : String} {now : Instant} {report : SweepReport} {cycle : SweepCycle}
    {passed rest : List KeyRecord} {turn : Visit.Turn} (hlisting : entries.listing path = passed ++ rest)
    (hnext : Visit.sweepOn path now false report rest cycle = turn) (hturn : ∀ visit', turn ≠ .stay visit') :
    ((Act.sweep path now 0).apply entries).2 = entries.sweepAway path now passed := by
  rcases Visit.sweepOn_cases path now false report rest cycle with ⟨_, -, hvalid⟩ | ⟨_, _, _, hstay, -⟩
  · have hall : entries.listing path = (passed ++ rest) ++ [] := by rw [hlisting, List.append_nil]
    rw [← List.length_nil, Act.apply_sweep hall, KeyMap.sweepAway_rest _ _ _ (hvalid rfl)]
  · rw [hstay] at hnext
    exact absurd hnext.symm (hturn _)

/-- One more call of a visit. -/
theorem stay {act : Act} {visit visit' : Visit} {reply : Reply} {clock : Clock} {cancelled : Bool}
    (h : Ongoing mounts start request entries store act (.returned store visit reply))
    (hnext : visit.next clock cancelled reply = .stay visit') :
    ∃ call, visit'.call? = some call ∧
      ∀ stage act', stage = .returned store visit' (performEntries (act.apply entries).2 call).1 →
        act' = (act.onReply clock.read? cancelled (.returned store visit reply)).onCall stage →
        Ongoing mounts start request entries store act' stage ∧
          (act'.apply entries).2 = (performEntries (act.apply entries).2 call).2 := by
  cases h with
  | put h => cases hnext
  | @get key h =>
    replace hnext : Visit.readOn key clock.read? ((entries.get? key).map (⟨key, ·⟩)) = .stay visit' := hnext
    rcases Visit.readOn_cases key clock.read? entries with
      ⟨answer, heq, -⟩ | ⟨record, t, heq, hget, hnow, hvalid, hburn⟩
    · rw [heq] at hnext
      cases hnext
    · rw [heq] at hnext
      cases hnext
      refine ⟨.delete key, rfl, ?_⟩
      rintro _ _ rfl rfl
      simp only [Act.onReply, hnow]
      refine ⟨.burn h hget hvalid hburn, ?_⟩
      simp [Act.onCall, Act.apply, hget, hvalid, hburn, performEntries]
  | burn h hget hvalid hburn => cases hnext
  | delete h => cases hnext
  | @list path cycle hm h =>
    replace hnext : Visit.listOn path clock.read? cancelled (entries.listing path) cycle = .stay visit' := hnext
    unfold Visit.listOn at hnext
    split at hnext
    next => cases hnext
    next =>
      -- At the listing nothing has been passed yet.
      obtain ⟨key, mount, rfl, hongoing, happly⟩ := sweepOn hm h (List.nil_append _).symm hnext
      refine ⟨.delete key, rfl, ?_⟩
      rintro _ _ rfl rfl
      exact ⟨hongoing, happly⟩
  | @evict _ mount _ passed hm h hpassed =>
    obtain ⟨key, mount', rfl, hongoing, happly⟩ := sweepOn hm h hpassed hnext
    refine ⟨.delete key, rfl, ?_⟩
    rintro _ _ rfl rfl
    rw [Act.apply_sweep hpassed]
    exact ⟨hongoing, happly⟩
  | @calls made call left replies _ hr h =>
    simp only [Visit.next, Visit.callsOn, List.tail_cons] at hnext
    cases left with
    | nil => cases hnext
    | cons next left =>
      cases hnext
      have hrequest : request = .calls store ((made ++ [call]) ++ next :: left) := by
        rw [hr, List.append_assoc]; rfl
      refine ⟨next, rfl, ?_⟩
      rintro _ _ rfl rfl
      refine ⟨.calls hrequest ?_, ?_⟩
      · show (performCalls entries ((made ++ [call]) ++ [next])).1 = _
        rw [performCalls_snoc, h]
        rfl
      · show (performCalls entries ((made ++ [call]) ++ [next])).2 = _
        rw [performCalls_snoc]
        rfl

/-- The end of a visit: nothing more happens to the records, and a call has the answer of its act. -/
theorem leave {act : Act} {visit : Visit} {reply : Reply} {clock : Clock} {cancelled : Bool} {turn : Visit.Turn}
    (h : Ongoing mounts start request entries store act (.returned store visit reply))
    (hnext : visit.next clock cancelled reply = turn) (hturn : ∀ visit', turn ≠ .stay visit') :
    let act' := act.onReply clock.read? cancelled (.returned store visit reply)
    (act'.apply entries).2 = (act.apply entries).2 ∧ act'.Serves mounts start request store ∧
      (request.IsCall → ∀ answer, turn = .answer answer → (act'.apply entries).1 = some answer) := by
  have hserves := h.serves
  cases h with
  | put h =>
    refine ⟨rfl, hserves, ?_⟩
    rintro - answer rfl
    cases hnext
    rfl
  | @get key h =>
    replace hnext : Visit.readOn key clock.read? ((entries.get? key).map (⟨key, ·⟩)) = turn := hnext
    rcases Visit.readOn_cases key clock.read? entries with ⟨answer, heq, happly⟩ | ⟨record, t, heq, -⟩
    · rw [heq] at hnext
      subst hnext
      refine ⟨?_, .read h, ?_⟩
      · show ((Act.read key clock.read?).apply entries).2 = entries
        rw [happly]
      · rintro - answer' hanswer
        cases hanswer
        show ((Act.read key clock.read?).apply entries).1 = some answer
        rw [happly]
    · rw [heq] at hnext
      exact absurd hnext.symm (hturn _)
  | burn h hget hvalid hburn =>
    refine ⟨rfl, hserves, ?_⟩
    rintro - answer rfl
    cases hnext
    simp [Act.onReply, Act.apply, hget, hvalid]
  | delete h =>
    refine ⟨rfl, hserves, ?_⟩
    rintro - answer rfl
    cases hnext
    rfl
  | @list path cycle hm h =>
    refine ⟨?_, ?_, fun hcall => absurd hcall h.1.not_isCall⟩
    · cases hnow : clock.read? with
      | none => cases cancelled <;> rfl
      | some now =>
        cases cancelled with
        | true => rfl
        | false =>
          replace hnext : Visit.listOn path clock.read? false (entries.listing path) cycle = turn := hnext
          simp only [hnow, Visit.listOn] at hnext
          exact sweepOver (List.nil_append _).symm hnext hturn
    · unfold Act.onReply
      dsimp only
      split
      next => exact .sweep h.1 hm
      next => exact .idle
  | @evict key mount cycle passed hm h hpassed =>
    refine ⟨?_, ?_, fun hcall => absurd hcall h.1.not_isCall⟩
    · cases cancelled with
      | true => rfl
      | false =>
        rw [Act.apply_sweep hpassed]
        exact sweepOver hpassed hnext hturn
    · unfold Act.onReply
      dsimp only
      split
      next => exact hserves
      next => exact .sweep h.1 hm
  | @calls made call left replies _ hr h =>
    refine ⟨rfl, hserves, fun hcall => ?_⟩
    rw [hr] at hcall
    exact hcall.elim

end Ongoing

end RoutedCache

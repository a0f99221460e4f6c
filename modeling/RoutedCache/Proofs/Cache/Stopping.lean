import RoutedCache.Proofs.Cache.Discipline
import RoutedCache.Proofs.Cache.Evictions
import RoutedCache.Proofs.Cache.UnderWay

/-!
# How a cancelled sweep comes to its end

A sweep whose token is cancelled asks for no lock and begins no call: if it was waiting to make a call, it makes this
one, and apart from that its turns only take it out of its round (`Transition.halted`).  Whatever other jobs do in the
meantime, the calls that it has still made, the claims that it still has and the passes of its log hang on where it
stood when it was cancelled (`Winding`), so that no later turn of it changes a store (`Cache.cancelled_sweep_stops`).
A call on documents that it was out of time for keeps the lock until its end, and whether its effect comes at once or
only then makes no difference to anybody (`Cache.LocksSound.late_effect`).
-/

namespace RoutedCache

/-- The passes of all rounds. -/
def passesOf (rounds : List Round) : List MountPass := rounds.flatMap (·.passes)

/-- The passes are the same but for the latest, which may have made up to so many more deletions. -/
inductive Continues (limit : Nat) : List MountPass → List MountPass → Prop
  | same {passes} : Continues limit passes passes
  | latest {pass pass' passes extra} (hp : pass'.place = pass.place)
      (hd : pass'.deletions = pass.deletions ++ extra) (hl : extra.length ≤ limit) :
      Continues limit (pass :: passes) (pass' :: passes)

namespace Continues

variable {m n : Nat} {a b c : List MountPass}

theorem mono (h : Continues m a b) (hle : m ≤ n) : Continues n a b := by
  cases h with
  | same => exact .same
  | latest hp hd hl => exact .latest hp hd (Nat.le_trans hl hle)

theorem trans (h : Continues m a b) (h' : Continues n b c) : Continues (m + n) a c := by
  cases h with
  | same => exact h'.mono (Nat.le_add_left ..)
  | latest hp hd hl =>
    cases h' with
    | same => exact .latest hp hd (Nat.le_trans hl (Nat.le_add_right ..))
    | latest hp' hd' hl' =>
      refine .latest (hp'.trans hp) (by rw [hd', hd, List.append_assoc]) ?_
      rw [List.length_append]
      exact Nat.add_le_add hl hl'

end Continues

/-! ### Turns of a cancelled sweep -/

section Turn

variable {c : Cache} {id : JobId} {job : Job} {old new : Stage} {shelves : List Shelf}

private theorem Visit.next_ne_stay_of_cancelled {request : Request} {visit : Visit} (hr : request.Sweeps)
    (hp : request.Pays visit) (clock : Clock) (reply : Reply) (visit' : Visit) :
    visit.next clock true reply ≠ .stay visit' := by
  intro h
  have hsweepOn {path : String} {now : Instant} {report : SweepReport} {rest : List KeyRecord} {cycle : SweepCycle}
      (h : sweepOn path now true report rest cycle = .stay visit') : False := by
    obtain ⟨report', heq⟩ := MountSweep.next_cancelled path now report rest
    rw [sweepOn, heq] at h
    cases h
  cases visit with
  | list path cycle =>
    cases reply with
    | listed entries =>
      simp only [next, listOn] at h
      split at h
      next => cases h
      next => exact hsweepOn h
    | _ => cases h
  | evict => exact hsweepOn h
  | _ => rcases hr with rfl | rfl <;> exact hp.elim

/-- A cancelled sweep keeps its claim to a store only by making the call that it was waiting to make. -/
theorem Transition.halted (ht : Transition c id job old new shelves) (hs : job.request.Stands old)
    (hr : job.request.Sweeps) (hc : c.isCancelled job.token = true) {s : Nat} (hk : new.claim? = some s) :
    ∃ visit due call reply, old = .pausing s visit due ∧ visit.call? = some call ∧ new = .returned s visit reply := by
  have hnot {p : Prop} (hfalse : c.isCancelled job.token = false) : p := by
    rw [hc] at hfalse
    cases hfalse
  cases ht with
  | aside ha =>
    rw [(Cache.claim?_aside ha).2] at hk
    cases hk
  | refuse => exact absurd rfl (Stage.ne_turn hk _)
  | cancel => exact absurd rfl (Stage.ne_turn hk _)
  | queue _ _ _ hfalse => exact hnot hfalse
  | enter _ _ _ hfalse => exact hnot hfalse
  | grant _ hfalse => exact hnot hfalse
  | call _ hcall =>
    cases hk
    exact ⟨_, _, _, _, rfl, hcall, rfl⟩
  | stay _ hnext =>
    rw [hc] at hnext
    exact absurd hnext (Visit.next_ne_stay_of_cancelled hr hs _ _ _)
  | leave => exact absurd rfl (Stage.ne_turn hk _)

/-- A cancelled sweep that is between two mounts ends its round. -/
private theorem Transition.ends {cycle : SweepCycle} (ht : Transition c id job (.between cycle) new shelves)
    (hc : c.isCancelled job.token = true) :
    new = .finished (.swept cycle.total) ∨ ∃ due, new = .idle due := by
  have hwants {s : Nat} {visit : Visit} {p : Prop} (hw : Wants c job (.between cycle) s visit) : p := by
    cases hw with
    | mount _ hfalse =>
      rw [hc] at hfalse
      cases hfalse
  cases ht with
  | aside ha =>
    cases ha with
    | swept => exact .inl rfl
    | pause => exact .inr ⟨_, rfl⟩
  | refuse hw => exact hwants hw
  | cancel hw => exact hwants hw
  | queue hw => exact hwants hw
  | enter hw => exact hwants hw
  | leave hk => cases hk

/-- A cancelled sweep begins no pass, and it makes one more deletion in its last one at most. -/
theorem Logged.continues {turn : Nat} {rounds rounds' : List Round} (h : Logged c job turn new rounds rounds')
    (ht : Transition c id job job.stage new shelves) (hc : c.isCancelled job.token = true) :
    Continues 1 (passesOf rounds) (passesOf rounds') ∧
      (new.claim? = none → Continues 0 (passesOf rounds) (passesOf rounds')) := by
  cases h with
  | outside => exact ⟨.same, fun _ => .same⟩
  | start => exact ⟨.same, fun _ => .same⟩
  | finish => exact ⟨.same, fun _ => .same⟩
  | enter ho _ hg =>
    rcases (ho ▸ ht).ends hc with rfl | ⟨due, rfl⟩
    · generalize MountPass.turned .. = pass' at hg
      cases hg with
      | within hk => cases hk
    · generalize MountPass.turned .. = pass' at hg
      cases hg with
      | within hk => cases hk
  | @within cycle begun pass passes older hk hp hg =>
    have hplace := MountPass.place_turned turn c.clock.read? cycle.total job.stage new pass
    have hacts := hg.acts ht
    generalize pass.turned turn c.clock.read? cycle.total job.stage new = pass' at hplace hacts
    generalize storesOn shelves = stores' at hacts
    show Continues 1 (pass :: (passes ++ passesOf older)) (pass' :: (passes ++ passesOf older)) ∧
      (_ → Continues 0 (pass :: (passes ++ passesOf older)) (pass' :: (passes ++ passesOf older)))
    cases hacts with
    | deletes hd => exact ⟨.latest hplace hd (Nat.le_refl 1), fun hclaim => by cases hclaim⟩
    | rests hd =>
      rw [← List.append_nil pass.deletions] at hd
      exact ⟨.latest hplace hd (Nat.zero_le 1), fun _ => .latest hplace hd (Nat.le_refl 0)⟩
  | @expire cycle begun pass passes older =>
    have hsame : Continues 0 (pass :: (passes ++ passesOf older))
        ({ pass with fate := some .expired, share := { skippedMounts := 1 } } :: (passes ++ passesOf older)) :=
      .latest rfl (List.append_nil _).symm (Nat.le_refl 0)
    exact ⟨hsame.mono (Nat.zero_le 1), fun _ => hsame⟩

end Turn

/-! ### Calls of a job -/

/-- The calls that a job has made to a store. -/
def Ledger.callsOf (ledger : Ledger) (id : JobId) (s : Nat) : List Made := (ledger s).filter (·.job = id)

theorem Cache.ledger_snoc (c : Cache) (events : List Event) (event : Event) :
    c.ledger (events ++ [event]) = (c.ledger events).note (c.steps events) event := by
  have hall (ledger : Ledger) : Ledger.along ledger c (events ++ [event]) =
      (Ledger.along ledger c events).note (c.steps events) event := by
    induction events generalizing c ledger with
    | nil => rfl
    | cons first events ih => exact ih ..
  exact hall _

namespace Ledger

variable {ledger : Ledger} {c : Cache} {event : Event} {id : JobId}

/-- Only its own turns make calls of a job. -/
theorem callsOf_note_other (hm : event ≠ .run id) (s : Nat) :
    (ledger.note c event).callsOf id s = ledger.callsOf id s := by
  cases event with
  | run j =>
    have hne : j ≠ id := fun heq => hm (congrArg Event.run heq)
    show ((ledger.enter j _) s).filter _ = _
    cases ((c.run j).stage? j).bind Stage.made? with
    | none => rfl
    | some made =>
      simp only [enter, add]
      split
      next => rw [List.filter_cons_of_neg (by simpa using hne)]; rfl
      next => rfl
  | _ => rfl

/-- A turn that ends without a reply has made no call. -/
theorem callsOf_note_none {stage : Stage} (hs : (c.step (.run id)).stage? id = some stage) (hm : stage.made? = none)
    (s : Nat) : (ledger.note c (.run id)).callsOf id s = ledger.callsOf id s := by
  have hnone : ((c.run id).stage? id).bind Stage.made? = none := by
    rw [show (c.run id).stage? id = some stage from hs]
    exact hm
  simp only [note, hnone, enter]

theorem callsOf_note_some {s s' : Nat} {visit : Visit} {call : StoreCall} {reply : Reply}
    (hs : (c.step (.run id)).stage? id = some (.returned s visit reply)) (hc : visit.call? = some call) :
    (ledger.note c (.run id)).callsOf id s' =
      if s' = s then ⟨id, call, reply⟩ :: ledger.callsOf id s' else ledger.callsOf id s' := by
  have hmade : ((c.run id).stage? id).bind Stage.made? = some (s, call, reply) := by
    rw [show (c.run id).stage? id = some (.returned s visit reply) from hs]
    simp [Stage.made?, hc]
  simp only [callsOf, note, hmade, enter, add]
  split
  next => rw [List.filter_cons_of_pos (by simp)]
  next => rfl

end Ledger

/-- The calls are none or the one that the job was waiting to make at this stage. -/
inductive LastCall (id : JobId) (old : Stage) (calls : Nat → List Made) : Prop
  | none (h : ∀ s, calls s = [])
  | one {s visit due call reply} (ho : old = .pausing s visit due) (hc : visit.call? = some call)
      (h : ∀ s', calls s' = if s' = s then [⟨id, call, reply⟩] else [])

theorem LastCall.congr {id : JobId} {old : Stage} {calls calls' : Nat → List Made} (h : LastCall id old calls)
    (heq : ∀ s, calls' s = calls s) : LastCall id old calls' := by
  cases h with
  | none h => exact .none fun s => (heq s).trans (h s)
  | one ho hc h => exact .one ho hc fun s => (heq s).trans (h s)

/-- What has become of a cancelled sweep that stood at this stage with this log, and the calls that it has made since:
nothing yet, it has made the call that it was waiting to make, or it has left the stores. -/
inductive Winding (id : JobId) (old : Stage) (rounds : List Round) :
    Stage → List Round → (Nat → List Made) → Prop
  | same {calls} (hm : ∀ s, calls s = []) : Winding id old rounds old rounds calls
  | called {s visit due reply rounds' calls} (ho : old = .pausing s visit due)
      (hg : Continues 1 (passesOf rounds) (passesOf rounds')) (hm : LastCall id old calls) :
      Winding id old rounds (.returned s visit reply) rounds' calls
  | out {stage rounds' calls} (hk : stage.claim? = none)
      (hg : Continues 1 (passesOf rounds) (passesOf rounds')) (hm : LastCall id old calls) :
      Winding id old rounds stage rounds' calls

namespace Winding

variable {id : JobId} {old stage : Stage} {rounds rounds' : List Round} {calls calls' : Nat → List Made}

theorem congr (h : Winding id old rounds stage rounds' calls) (heq : ∀ s, calls' s = calls s) :
    Winding id old rounds stage rounds' calls' := by
  cases h with
  | same hm => exact .same fun s => (heq s).trans (hm s)
  | called ho hg hm => exact .called ho hg (hm.congr heq)
  | out hk hg hm => exact .out hk hg (hm.congr heq)

theorem lastCall (h : Winding id old rounds stage rounds' calls) : LastCall id old calls := by
  cases h with
  | same hm => exact .none hm
  | called _ _ hm => exact hm
  | out _ _ hm => exact hm

theorem claim? (h : Winding id old rounds stage rounds' calls) {s : Nat} (hk : stage.claim? = some s) :
    old.claim? = some s := by
  cases h with
  | same => exact hk
  | called ho =>
    rw [ho]
    exact hk
  | out hnone => cases hnone.symm.trans hk

theorem inside? (h : Winding id old rounds stage rounds' calls) {s : Nat} (hi : stage.inside? = some s) :
    old.inside? = some s := by
  cases h with
  | same => exact hi
  | called ho =>
    rw [ho]
    exact hi
  | out hnone => cases hnone.symm.trans (Stage.claim?_of_inside? hi)

theorem pausing {s due : Nat} {visit : Visit} (h : Winding id old rounds (.pausing s visit due) rounds' calls) :
    old = .pausing s visit due := by
  cases h with
  | same => rfl
  | out hnone => cases hnone

theorem continues (h : Winding id old rounds stage rounds' calls) :
    Continues 1 (passesOf rounds) (passesOf rounds') := by
  cases h with
  | same => exact .same
  | called _ hg => exact hg
  | out _ hg => exact hg

/-- A turn of a cancelled sweep. -/
private theorem turn {c : Cache} {job : Job} {new : Stage} {shelves : List Shelf} {rounds'' : List Round}
    {number : Nat} (h : Winding id old rounds job.stage rounds' calls)
    (ht : Transition c id job job.stage new shelves) (hl : Logged c job number new rounds' rounds'')
    (hs : job.request.Stands job.stage) (hr : job.request.Sweeps) (hc : c.isCancelled job.token = true)
    (hnone : new.claim? = none → ∀ s, calls' s = calls s)
    (hsome : ∀ s visit call reply, new = .returned s visit reply → visit.call? = some call →
      ∀ s', calls' s' = if s' = s then ⟨id, call, reply⟩ :: calls s' else calls s') :
    Winding id old rounds new rounds'' calls' := by
  obtain ⟨hone, hzero⟩ := hl.continues ht hc
  cases hclaim : new.claim? with
  | none => exact .out hclaim (h.continues.trans (hzero hclaim)) (h.lastCall.congr (hnone hclaim))
  | some s =>
    obtain ⟨visit, due, call, reply, hold, hcall, rfl⟩ := ht.halted hs hr hc hclaim
    rw [hold] at h
    generalize hstage : Stage.pausing s visit due = stage at h
    cases h with
    | same hm =>
      have hcalls (s' : Nat) : calls' s' = if s' = s then [⟨id, call, reply⟩] else [] := by
        rw [hsome s visit call reply rfl hcall, hm]
      exact .called hstage.symm hone (.one hstage.symm hcall hcalls)
    | called => cases hstage
    | out hk =>
      subst hstage
      cases hk

end Winding

namespace Cache

variable {first : Cache} {before : List Event} {id : JobId} {job : Job}

/-- What has become of a cancelled sweep after some more events. -/
structure Winds (first : Cache) (before : List Event) (id : JobId) (job : Job) (more : List Event)
    (stage : Stage) : Prop where
  here : (first.steps (before ++ more)).jobs[id]? = some { job with stage }
  cancelled : (first.steps (before ++ more)).isCancelled job.token = true
  winding : Winding id job.stage (first.rounds before id) stage (first.rounds (before ++ more) id)
    (((first.steps before).ledger more).callsOf id)

private theorem Winds.step (hu : first.Unused) (hr : job.request.Sweeps) {more : List Event} {stage : Stage}
    (h : Winds first before id job more stage) (event : Event) :
    ∃ new, Winds first before id job (more ++ [event]) new := by
  obtain ⟨hj, hc, hw⟩ := h
  have hlocks := (LocksSound.of_unused hu).steps (before ++ more)
  have hmounts := (LocksSound.of_unused hu).mounts_steps (before ++ more)
  have hcancelled := hlocks.cancelled_step hc event
  have htracks := tracks_steps hu _ hj
  have hcalls := ledger_snoc (first.steps before) more event
  rw [← steps_append] at hcalls
  have hnoted := hlocks.note_cases hj event (before ++ more).length (first.rounds (before ++ more))
  rw [← rounds_snoc, ← steps_snoc, List.append_assoc] at hnoted
  rw [← steps_snoc, List.append_assoc] at hcancelled
  have hstep : (first.steps (before ++ more)).step event = first.steps (before ++ (more ++ [event])) := by
    rw [← steps_snoc, List.append_assoc]
  cases hnoted with
  | same _ hnext hround hwaits =>
    refine ⟨stage, hnext, hcancelled, ?_⟩
    rw [hround]
    refine hw.congr fun s => ?_
    rw [hcalls]
    by_cases he : event = .run id
    · subst he
      refine Ledger.callsOf_note_none (by rw [hstep]; exact stage?_eq hnext) ?_ s
      cases stage with
      | returned s visit reply => exact absurd rfl (hwaits rfl s visit reply)
      | _ => rfl
    · exact Ledger.callsOf_note_other he s
  | @turn new shelves he ht _ _ hnext hround =>
    subst he
    refine ⟨new, hnext, hcancelled, ?_⟩
    rw [← hmounts] at htracks
    rw [hround]
    have hlogged := (htracks.turned (before ++ more).length ht).logged
    refine hw.turn ht hlogged (stands_steps hu _ id _ hj) hr hc (fun hclaim s => ?_) ?_
    · rw [hcalls]
      refine Ledger.callsOf_note_none (by rw [hstep]; exact stage?_eq hnext) ?_ s
      cases new with
      | returned => cases hclaim
      | _ => rfl
    · rintro s visit call reply rfl hcall s'
      rw [hcalls]
      exact Ledger.callsOf_note_some (by rw [hstep]; exact stage?_eq hnext) hcall
  | skip he hx _ _ hnext hround =>
    subst he
    cases hx with
    | @skip s cycle shelf hk =>
      obtain ⟨begun, pass, passes, older, heq, -, -⟩ := htracks.of_sweeping hk
      refine ⟨_, hnext, hcancelled, .out rfl ?_ (hw.lastCall.congr fun s => ?_)⟩
      · refine hw.continues.trans (n := 0) ?_
        rw [hround, heq, Round.expired_within hk]
        exact .latest rfl (List.append_nil _).symm (Nat.le_refl 0)
      · rw [hcalls]
        exact Ledger.callsOf_note_other (by simp) s

theorem winds (hu : first.Unused) (hj : (first.steps before).jobs[id]? = some job)
    (hr : job.request.Sweeps) (hc : (first.steps before).isCancelled job.token = true) (more : List Event) :
    ∃ stage, Winds first before id job more stage := by
  induction more using List.reverseRecOn with
  | nil =>
    rw [← List.append_nil before] at hj hc
    refine ⟨job.stage, hj, hc, ?_⟩
    rw [List.append_nil]
    exact .same fun _ => rfl
  | append_singleton more event ih =>
    obtain ⟨stage, h⟩ := ih
    exact h.step hu hr event

/-- A cancelled sweep that is not waiting to make a call changes no store in its turn. -/
theorem stores_of_halted (hu : first.Unused) {events : List Event} {event : Event}
    (hj : (first.steps events).jobs[id]? = some job) (hr : job.request.Sweeps)
    (hc : (first.steps events).isCancelled job.token = true) (hm : event.Moves id)
    (hp : ∀ s visit due, job.stage ≠ .pausing s visit due) :
    (first.steps (events ++ [event])).stores = (first.steps events).stores := by
  have hmoved := ((LocksSound.of_unused hu).steps events).moved hj hm
  rw [← steps_snoc] at hmoved
  cases hmoved with
  | same heq => exact congrArg stores heq
  | skip _ _ hs => exact hs
  | turn _ ht hs =>
    rw [hs]
    have htouches := ht.touches
    cases htouches with
    | rest heq => exact heq
    | call =>
      obtain ⟨visit, due, call, reply, hold, -⟩ := ht.halted (stands_steps hu events id job hj) hr hc rfl
      exact absurd hold (hp _ _ _)

end Cache

end RoutedCache

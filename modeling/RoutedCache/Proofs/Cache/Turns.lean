import RoutedCache.Proofs.Cache.Lives
import RoutedCache.Session.Run

/-!
# Schedules are runs

Whatever a schedule does to its cache, events could have done (`Cache.Runs`): it gives turns, lets the time go
by, cancels tokens and starts jobs.  As long as it starts no job, the events start none (`Cache.Drifts`); so
it is with the turn of a job and with the turns and the waits until a goal is reached.
-/

namespace RoutedCache

/-- The event starts a job. -/
def Event.Starts : Event → Prop
  | .start .. => True
  | _ => False

namespace Cache

/-- Events lead from one cache to another. -/
def Runs (c c' : Cache) : Prop := ∃ events, c' = c.steps events

/-- Events that start no job lead from one cache to another. -/
def Drifts (c c' : Cache) : Prop := ∃ events, (∀ event ∈ events, ¬event.Starts) ∧ c' = c.steps events

variable {c c' c'' : Cache}

namespace Runs

theorem refl (c : Cache) : c.Runs c := ⟨[], rfl⟩

theorem step (c : Cache) (event : Event) : c.Runs (c.step event) := ⟨[event], rfl⟩

theorem trans (h : c.Runs c') (h' : c'.Runs c'') : c.Runs c'' := by
  obtain ⟨events, rfl⟩ := h
  obtain ⟨events', rfl⟩ := h'
  exact ⟨events ++ events', (steps_append ..).symm⟩

end Runs

namespace Drifts

theorem refl (c : Cache) : c.Drifts c := ⟨[], fun _ h => absurd h List.not_mem_nil, rfl⟩

theorem step (c : Cache) (event : Event) (h : ¬event.Starts) : c.Drifts (c.step event) :=
  ⟨[event], fun _ he => List.mem_singleton.1 he ▸ h, rfl⟩

theorem trans (h : c.Drifts c') (h' : c'.Drifts c'') : c.Drifts c'' := by
  obtain ⟨events, hevents, rfl⟩ := h
  obtain ⟨events', hevents', rfl⟩ := h'
  exact ⟨events ++ events', fun event he => (List.mem_append.1 he).elim (hevents event) (hevents' event),
    (steps_append ..).symm⟩

theorem runs (h : c.Drifts c') : c.Runs c' := by
  obtain ⟨events, -, heq⟩ := h
  exact ⟨events, heq⟩

end Drifts

end Cache

namespace Schedule

open Cache

theorem drifts_turnFrom (fuel : Nat) (id : JobId) (c : Cache) : c.Drifts (turnFrom fuel id c) := by
  induction fuel generalizing c with
  | zero => exact .refl c
  | succ fuel ih =>
    have hrun : c.Drifts (if c.ready id then c.step (.run id) else c) := by
      split
      · exact .step c (.run id) fun h => h
      · exact .refl c
    unfold turnFrom
    generalize (if c.ready id then c.step (.run id) else c) = c' at hrun
    dsimp only
    split
    · exact hrun.trans (ih c')
    · split
      · exact (hrun.trans (.step c' (.expire id) fun h => h)).trans (ih _)
      · exact hrun

/-- The turn of a job that is ready begins with a run. -/
theorem drifts_turnFrom_ready {id : JobId} {c : Cache} (h : c.ready id = true) {fuel : Nat}
    (hfuel : fuel ≠ 0) :
    (c.run id).Drifts (turnFrom fuel id c) := by
  obtain ⟨fuel, rfl⟩ := Nat.exists_eq_succ_of_ne_zero hfuel
  unfold turnFrom
  rw [if_pos h]
  dsimp only
  split
  · exact drifts_turnFrom ..
  · split
    · exact (Drifts.step (c.step (.run id)) (.expire id) fun h => h).trans (drifts_turnFrom ..)
    · exact .refl _

theorem drifts_turn (s : Schedule) (id : JobId) : s.cache.Drifts (s.turn id).cache := by
  unfold turn noteAnswer
  split <;> exact drifts_turnFrom patience id s.cache

theorem drifts_turn_ready {s : Schedule} {id : JobId} (h : s.cache.ready id = true) :
    (s.cache.run id).Drifts (s.turn id).cache := by
  have hturn : (s.cache.run id).Drifts (turnFrom patience id s.cache) := drifts_turnFrom_ready h (by decide)
  unfold turn noteAnswer
  split <;> exact hturn

theorem drifts_moveTo (s : Schedule) (time : Nat) : s.cache.Drifts (s.moveTo time).cache := by
  have hcancels (due : List (Nat × Token)) (c : Cache) :
      c.Drifts (due.foldl (fun c alarm => c.step (.cancel alarm.2)) c) := by
    induction due generalizing c with
    | nil => exact .refl c
    | cons alarm rest ih => exact (Drifts.step c (.cancel alarm.2) fun h => h).trans (ih _)
  exact (Drifts.step s.cache (.elapse (time - s.cache.time)) fun h => h).trans (hcancels ..)

/-- Turns and waits start no job. -/
theorem drifts_driveFrom (goal : Cache → Bool) (limit : Option Nat) (fuel : Nat) (s : Schedule) :
    s.cache.Drifts (driveFrom goal limit fuel s).cache := by
  induction fuel generalizing s with
  | zero => exact .refl _
  | succ fuel ih =>
    unfold driveFrom
    split
    next => exact .refl _
    next =>
      split
      next id _ => exact (s.drifts_turn id).trans (ih _)
      next =>
        split
        next store _ => exact (Drifts.step s.cache (.complete store) fun h => h).trans (ih _)
        next =>
          split
          next time _ => exact (s.drifts_moveTo time).trans (ih _)
          next => exact .refl _

theorem drifts_driveUntil (s : Schedule) (goal : Cache → Bool) : s.cache.Drifts (s.driveUntil goal).cache :=
  drifts_driveFrom goal none patience s

/-! ### What starts jobs -/

theorem runs_enter (s : Schedule) (request : Request) (token : Token) :
    s.cache.Runs (s.enter request token).1.cache := .step s.cache (.start request token)

theorem runs_start (s : Schedule) (request : Request) (token : Token) :
    s.cache.Runs (s.start request token).1.cache :=
  (s.runs_enter request token).trans (drifts_turn _ _).runs

theorem runs_call (s : Schedule) (request : Request) (token : Token) :
    s.cache.Runs (s.call request token).1.cache :=
  (s.runs_start request token).trans (drifts_driveUntil _ _).runs

theorem runs_arm (s : Schedule) (cancellation : Cancellation) :
    s.cache.Runs (s.arm cancellation).1.cache := by
  cases cancellation with
  | before => exact .step s.cache (.cancel (.call s.cache.jobs.length))
  | _ => exact .refl _

theorem runs_callWith (s : Schedule) (request : Request) (cancellation : Cancellation) :
    s.cache.Runs (s.callWith request cancellation).1.cache :=
  (s.runs_arm cancellation).trans (runs_call ..)

theorem runs_startAll (s : Schedule) (calls : List (Request × Cancellation)) :
    s.cache.Runs (s.startAll calls).1.cache := by
  induction calls generalizing s with
  | nil => exact .refl _
  | cons first rest ih =>
    exact (s.runs_arm first.2).trans ((runs_start ..).trans (ih _))

theorem runs_callAll (s : Schedule) (calls : List (Request × Cancellation)) :
    s.cache.Runs (s.callAll calls).1.cache :=
  (s.runs_startAll calls).trans (drifts_driveUntil _ _).runs

theorem runs_hold (s : Schedule) (store ms : Nat) : s.cache.Runs (s.hold store ms).1.cache := by
  have hrun (goal : Cache → Bool) := (s.runs_enter (.hold store ms) .never).trans (drifts_driveUntil _ goal).runs
  unfold hold
  dsimp only
  split <;> exact hrun _

theorem runs_dump (s : Schedule) (places : List (String × Nat)) : s.cache.Runs (s.dump places).1.cache := by
  induction places generalizing s with
  | nil => exact .refl _
  | cons first rest ih => exact (s.runs_call (.calls first.2 [.list ""]) .never).trans (ih _)

end Schedule

/-- What an action does to the cache of a session is a run. -/
theorem Session.runs_act (s : Session) {schedule schedule' : Schedule} {action : Action}
    {answer : ActionAnswer}
    (h : s.act schedule action = some (schedule', answer)) : schedule.cache.Runs schedule'.cache := by
  cases action with
  | call request cancellation =>
    have hrun := schedule.runs_callWith request cancellation
    dsimp only [act] at h
    generalize schedule.callWith request cancellation = called at h hrun
    split at h
    next => cases h
    next => cases h; exact hrun
  | parallel calls =>
    have hrun := schedule.runs_callAll calls
    dsimp only [act] at h
    generalize schedule.callAll calls = called at h hrun
    split at h <;> cases h
    exact hrun
  | advance ms =>
    obtain ⟨t, -, heq⟩ := Option.map_eq_some_iff.1 h
    rw [← (Prod.mk.inj heq).1]
    exact (Schedule.drifts_driveFrom _ _ _ schedule).runs
  | setClock t =>
    obtain ⟨_, -, heq⟩ := Option.map_eq_some_iff.1 h
    rw [← (Prod.mk.inj heq).1]
    exact .step schedule.cache (.setClock t)
  | hold name ms =>
    have hrun := schedule.runs_hold ((s.place? name).getD 0) ms
    dsimp only [act] at h
    generalize schedule.hold ((s.place? name).getD 0) ms = held at h hrun
    split at h <;> (cases h; exact hrun)
  | store name cancellation calls =>
    have hrun := schedule.runs_callWith (.calls ((s.place? name).getD 0) calls) cancellation
    dsimp only [act] at h
    generalize schedule.callWith (.calls ((s.place? name).getD 0) calls) cancellation = called at h hrun
    split at h <;> (cases h; exact hrun)
  | dump =>
    have hrun := schedule.runs_dump s.places
    dsimp only [act] at h
    generalize schedule.dump s.places = dumped at h hrun
    cases h
    exact hrun
  | shutdown =>
    have hrun := schedule.runs_call .shutdown .never
    dsimp only [act] at h
    generalize schedule.call .shutdown .never = called at h hrun
    cases h
    exact hrun
  | cancelShutdown =>
    cases h
    exact .step schedule.cache (.cancel .shutdown)
  | _ =>
    cases h
    exact .refl _

end RoutedCache

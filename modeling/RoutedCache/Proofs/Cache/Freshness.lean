import RoutedCache.Proofs.Cache.Frame

/-!
# Records are valid when they are made

A write makes its record and looks whether it is valid in its first turn, before it asks for a lock.  So a
record that is put was valid when its write began (`Cache.writes_fresh`), and a write whose record was not
stores nothing.  Between its beginning and its put a write may wait, for the lock or in a slow store, and then
the validity of its record may come to its end: `Cache.puts_expired` is a run in which an expired record
replaces a valid one.
-/

namespace RoutedCache

namespace Course

variable {c : Cache} {id : JobId} {course : Course}

@[simp] theorem began_replied (course : Course) (stage : Stage) :
    (course.replied stage).began = course.began := by
  unfold replied
  split <;> rfl

/-- The first turn of a job is its beginning. -/
theorem began_note_ready (course : Course) (hready : c.stage? id = some .ready) {stage : Stage}
    (hs : (c.run id).stage? id = some stage) : (course.note id c (.run id)).began = c.clock := by
  obtain ⟨job, hj, hstage⟩ := Option.map_eq_some_iff.1 hready
  simp [note, hj, hs, hstage, looked]

/-- No other turn is. -/
theorem began_note (course : Course) {event : Event} (hnot : ¬(event = .run id ∧ c.stage? id = some .ready)) :
    (course.note id c event).began = course.began := by
  cases event with
  | run j =>
    unfold note
    dsimp only
    split
    next heq =>
      subst heq
      split
      next job stage hj hs =>
        rw [began_replied]
        unfold looked
        split
        next hready => exact absurd ⟨rfl, by rw [Cache.stage?_eq hj, hready]⟩ hnot
        all_goals rfl
      next => rfl
    next => rfl
  | _ => rfl

/-- Nothing but its first turn makes a job begin. -/
theorem begun_before (h : c.LocksSound) {event : Event} {stage : Stage}
    (hs : (c.step event).stage? id = some stage) (hne : stage ≠ .ready)
    (hnot : ¬(event = .run id ∧ c.stage? id = some .ready)) :
    ∃ stage, c.stage? id = some stage ∧ stage ≠ .ready := by
  cases hj : c.jobs[id]? with
  | none =>
    obtain ⟨job, hnew, hstage⟩ := Option.map_eq_some_iff.1 hs
    rw [← hstage, (h.job_new hj hnew).2] at hne
    exact absurd rfl hne
  | some job =>
    refine ⟨job.stage, Cache.stage?_eq hj, fun hready => ?_⟩
    have hbefore : c.stage? id = some .ready := by rw [Cache.stage?_eq hj, hready]
    have hstill : (c.step event).stage? id = some .ready := by
      by_cases hm : event.Moves id
      · cases event with
        | run j => exact absurd ⟨congrArg Event.run hm, hbefore⟩ hnot
        | expire j =>
          obtain rfl : j = id := hm
          simp [Cache.step, Cache.expire, hbefore, Stage.sweeping?]
        | _ => exact hm.elim
      · exact h.stage?_same hbefore hm
    rw [hs] at hstill
    exact hne (Option.some.inj hstill)

/-- A job that has begun began in a turn of the run, or before it. -/
theorem began_along (h : c.LocksSound) (course : Course) (events : List Event) {stage : Stage}
    (hs : (c.steps events).stage? id = some stage) (hne : stage ≠ .ready) :
    (∃ stage, c.stage? id = some stage ∧ stage ≠ .ready ∧ (course.along id c events).began = course.began) ∨
      ∃ early late, events = early ++ .run id :: late ∧ (c.steps early).stage? id = some .ready ∧
        (course.along id c events).began = (c.steps early).clock := by
  induction events generalizing c course with
  | nil => exact .inl ⟨stage, hs, hne, rfl⟩
  | cons event events ih =>
    rcases ih (h.step event) (course.note id c event) hs with
      ⟨next, hnext, hbegun, hsame⟩ | ⟨early, late, rfl, hready, hclock⟩
    · by_cases hfirst : event = .run id ∧ c.stage? id = some .ready
      · obtain ⟨rfl, hready⟩ := hfirst
        exact .inr ⟨[], events, rfl, hready, hsame.trans (began_note_ready course hready hnext)⟩
      · obtain ⟨before, hbefore, hne'⟩ := begun_before h hnext hbegun hfirst
        exact .inl ⟨before, hbefore, hne', hsame.trans (began_note course hfirst)⟩
    · exact .inr ⟨event :: early, late, rfl, hready, hclock⟩

end Course

namespace Cache

variable {first : Cache} {id : JobId}

/-- The job is about to begin with the request. -/
def Begins (c : Cache) (id : JobId) (request : Request) : Prop :=
  ∃ token, c.jobs[id]? = some { request, token }

/-- In its next turn the job puts the entry into a store. -/
def Puts (c : Cache) (id : JobId) (entry : KeyRecord) : Prop :=
  ∃ s reply, (c.step (.run id)).stage? id = some (.returned s (.put entry) reply)

/-- No record is expired when it is put. -/
def PutsUnexpired (first : Cache) (events : List Event) : Prop :=
  ∀ before after id entry now, events = before ++ .run id :: after → (first.steps before).Puts id entry →
    (first.steps before).clock.read? = some now → entry.record.isValidAt now = true

/-- A write that waits for the lock while the validity of its record comes to its end puts it nevertheless, in
the place of a record that is still valid. -/
theorem puts_expired :
    let old : Record := ⟨[1], { createdAt := default }⟩
    let record : Record := ⟨[2],
      { createdAt := default, notValidAfter := some { seconds := 0, nanos := 500000000 } }⟩
    let now : Instant := { seconds := 1, nanos := 0 }
    let first := fresh ⟨KeyMap.empty.insert "m" 0⟩ [.memory (KeyMap.empty.insert "m/k" old)] 0 0
      (.ofInstant default)
    let waiting : List Event := [.start (.hold 0 1000) .never, .run 0,
      .start (.write "m/k" [2] [.ttl (.ofMillis 500)]) .never, .run 1, .elapse 1000, .run 0]
    let events := waiting ++ [.run 1, .run 1]
    first.Unused ∧ (∀ event ∈ events, ∀ t, event ≠ .setClock t) ∧ ¬first.PutsUnexpired events ∧
      (first.steps waiting).clock.read? = some now ∧ old.isValidAt now = true ∧ record.isValidAt now = false ∧
      (first.steps waiting).stores = [.memory (KeyMap.empty.insert "m/k" old)] ∧
      (first.steps events).stores = [.memory (KeyMap.empty.insert "m/k" record)] ∧
      (first.steps events).answer? 1 = some .written := by
  intro old record now first waiting events
  have hnow : (first.steps waiting).clock.read? = some now := by decide +kernel
  have hput : (first.steps waiting).Puts 1 ⟨"m/k", record⟩ := ⟨0, .done, by decide +kernel⟩
  have hexpired : record.isValidAt now = false := by decide
  refine ⟨unused_fresh .., by simp [events, waiting], fun h => ?_, hnow, by decide, hexpired,
    by decide +kernel, by decide +kernel, by decide +kernel⟩
  have hvalid := h waiting [.run 1] 1 _ now rfl hput hnow
  rw [hexpired] at hvalid
  cases hvalid

/-- What the validity of a record that is written comes to in a run. -/
structure WritesFresh (first : Cache) (events : List Event) : Prop where
  /-- A record that is put was made and valid when its write began.  If it is expired by now, its validity
  came to an end after that, and the write has been waiting. -/
  made : ∀ before after id entry, events = before ++ .run id :: after → (first.steps before).Puts id entry →
    ∃ early late key data options now, before ++ [.run id] = early ++ .run id :: late ∧
      (first.steps early).Begins id (.write key data options) ∧ (first.steps early).clock.read? = some now ∧
      Request.freshEntry (some now) key data options = .ok entry ∧ entry.record.isValidAt now = true ∧
      ∀ later, (first.steps before).clock.read? = some later → entry.record.isValidAt later = false →
        late ≠ [] ∧ ∃ stop, entry.record.metadata.notValidAfter = some stop ∧ now < stop ∧ ¬later < stop
  /-- A write whose record is expired when it begins is dropped and leaves the stores alone in all its
  turns. -/
  dropped : ∀ early late id key data options now stored record, events = early ++ .run id :: late →
    (first.steps early).Begins id (.write key data options) → (first.steps early).clock.read? = some now →
    normalizeKey key = .ok stored → (Record.fresh data now).applyAll options = .ok record →
    record.isValidAt now = false → (first.steps events).answer? id = some .dropped ∧
      ∀ before event after, events = before ++ event :: after → event.Moves id →
        (first.steps (before ++ [event])).stores = (first.steps before).stores

theorem Begins.stage? {c : Cache} {request : Request} (h : c.Begins id request) :
    c.stage? id = some .ready := by
  obtain ⟨token, hj⟩ := h
  exact stage?_eq hj

/-- A write that begins with an expired record is dropped in its first turn. -/
theorem Begins.dropped {c : Cache} {key stored : String} {data : Bytes} {options : List WriteOption}
    {now : Instant} {record : Record} (h : c.Begins id (.write key data options))
    (hclock : c.clock.read? = some now) (hkey : normalizeKey key = .ok stored)
    (hrecord : (Record.fresh data now).applyAll options = .ok record)
    (hexpired : record.isValidAt now = false) :
    ∃ token, (c.step (.run id)).jobs[id]? =
      some { request := .write key data options, token, stage := .finished .dropped } := by
  obtain ⟨token, hj⟩ := h
  have hroute : (Request.write key data options).route c.mounts c.clock = .error .dropped := by
    simp [Request.route, Request.freshEntry, hkey, hclock, hrecord, hexpired]
  refine ⟨token, ?_⟩
  simp [step, run, hj, begin, hroute, finish, setStage]

/-- Only a write puts. -/
theorem isCall_of_put (hu : first.Unused) {events : List Event} {job : Job} {entry : KeyRecord} {s : Nat}
    {reply : Reply} (hj : (first.steps events).jobs[id]? = some job)
    (hs : job.stage = .returned s (.put entry) reply) :
    job.request.IsCall := by
  by_cases hcall : job.request.IsCall
  · exact hcall
  · have hother := otherStage_steps hu hj hcall
    rw [hs] at hother
    exact hother.elim

/-- The record that a write puts is the one that it made at the time of its beginning. -/
theorem Puts.made (hu : first.Unused) {before : List Event} {entry : KeyRecord}
    (hput : (first.steps before).Puts id entry) :
    ∃ early late key data options, before ++ [.run id] = early ++ .run id :: late ∧
      (first.steps early).Begins id (.write key data options) ∧
      Request.freshEntry (first.steps early).clock.read? key data options = .ok entry := by
  have hlocks := LocksSound.of_unused hu
  obtain ⟨s, reply, hs⟩ := hput
  rw [← steps_snoc] at hs
  obtain ⟨job, hj, hstage⟩ := Option.map_eq_some_iff.1 hs
  have hcall := isCall_of_put hu hj hstage
  rcases Course.began_along hlocks {} _ hs (by simp) with
    ⟨stage, hfirst, -⟩ | ⟨early, late, hsplit, hready, hbegan⟩
  · simp [stage?, hu.jobs] at hfirst
  · -- The course of the write has noted when it began, and its visit is what it was routed to then.
    have hsound := sound_course hu hj hcall
    rw [hstage] at hsound
    generalize hcourse : first.course (before ++ [.run id]) id = course at hsound
    cases hsound with
    | returned _ hdue =>
      cases hdue with
      | first hr =>
        generalize hrequest : job.request = request at hr
        cases Request.routed hr with
        | @write key data options _ _ _ hfresh =>
          refine ⟨early, late, key, data, options, hsplit, ?_, ?_⟩
          · obtain ⟨writer, hwriter, hbegins⟩ := Option.map_eq_some_iff.1 hready
            obtain ⟨last, hlast⟩ := (hlocks.steps early).job_steps hwriter (.run id :: late)
            rw [← steps_append, ← hsplit, hj] at hlast
            cases hlast
            exact ⟨writer.token, by rw [hwriter, ← hbegins, ← hrequest]⟩
          · have hclock : (first.course (before ++ [.run id]) id).began = (first.steps early).clock := hbegan
            rw [hcourse] at hclock
            rw [← hclock]
            exact hfresh

/-- In every run the records that writes put were valid when their writes began, and a write that begins with
an expired record stores nothing. -/
theorem writes_fresh {first : Cache} (hu : first.Unused) (events : List Event) :
    first.WritesFresh events where
  made before after id entry hsplit hput := by
    obtain ⟨early, late, key, data, options, hearly, hbegins, hfresh⟩ := hput.made hu
    obtain ⟨now, hnow, -, -, hvalid⟩ := Request.freshEntry_eq_ok hfresh
    rw [hnow] at hfresh
    refine ⟨early, late, key, data, options, now, hearly, hbegins, hnow, hfresh, hvalid,
      fun later hlater hexpired => ?_⟩
    constructor
    · -- A put in the first turn would be at the very time at which the record was found valid.
      rintro rfl
      obtain ⟨rfl, -⟩ := List.append_inj' hearly rfl
      rw [hnow] at hlater
      cases hlater
      rw [hvalid] at hexpired
      cases hexpired
    · unfold Record.isValidAt Metadata.isValidAt at hvalid hexpired
      cases hstop : entry.record.metadata.notValidAfter with
      | none => simp [hstop] at hexpired
      | some stop =>
        rw [hstop] at hvalid hexpired
        exact ⟨stop, rfl, of_decide_eq_true hvalid, of_decide_eq_false hexpired⟩
  dropped early late id key data options now stored record hsplit hbegins hclock hkey hrecord hexpired := by
    have hlocks := LocksSound.of_unused hu
    obtain ⟨token, hj⟩ := hbegins.dropped hclock hkey hrecord hexpired
    have hlast := (hlocks.steps early).step (.run id) |>.over_steps hj rfl late
    rw [← steps_snoc, ← steps_append, List.append_assoc, List.singleton_append, ← hsplit] at hlast
    refine ⟨answer?_eq_some_iff.2 ⟨_, hlast, rfl⟩, fun before event after hsplit' hm => ?_⟩
    exact stores_of_dropped hu hlast trivial rfl hsplit' hm

/-- One write waits and puts its record in time, the next one is dropped. -/
theorem writes_fresh_waiting :
    let stop : Instant := { seconds := 0, nanos := 500000000 }
    let entry : KeyRecord := ⟨"m/k", ⟨[2], { createdAt := default, notValidAfter := some stop }⟩⟩
    let first := fresh ⟨KeyMap.empty.insert "m" 0⟩ [.memory .empty] 0 0 (.ofInstant default)
    let waiting : List Event := [.start (.hold 0 100) .never, .run 0,
      .start (.write "m/k" [2] [.ttl (.ofMillis 500)]) .never, .run 1, .elapse 100, .run 0]
    let events := waiting ++ [.run 1, .run 1, .start (.write "/m/k" [3] [.eol default]) .never, .run 2]
    first.Unused ∧ first.WritesFresh events ∧ (first.steps waiting).Puts 1 entry ∧
      (first.steps events).answer? 2 = some .dropped ∧
      (first.steps events).stores = [.memory (KeyMap.empty.insert entry.key entry.record)] := by
  intro stop entry first waiting events
  have hu : first.Unused := unused_fresh ..
  have hput : (first.steps waiting).Puts 1 entry := ⟨0, .done, by decide +kernel⟩
  exact ⟨hu, writes_fresh hu events, hput, by decide +kernel, by decide +kernel⟩

end Cache

end RoutedCache

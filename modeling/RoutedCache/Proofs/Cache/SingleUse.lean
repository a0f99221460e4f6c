import Mathlib.Combinatorics.Enumerative.DoubleCounting
import Mathlib.Data.Fintype.Fin
import RoutedCache.Proofs.Cache.Account
import RoutedCache.Proofs.WriteOption

/-!
# Burn-after-reading

A record to be read once is the answer of one read at most, whatever the jobs do and whichever calls fail
(`Cache.burns_once`).  Two puts of equal records are two records here: the number of its put in the ledger tells
which one a read has found (`Took`).
-/

namespace RoutedCache

/-- A write of a record to be read once that was acknowledged. -/
def Job.burnWritten (job : Job) : Bool :=
  match job.request, job.stage with
  | .write _ _ options, .finished .written => options.contains .burnAfterReading
  | _, _ => false

/-- The read was answered with a record that it had found at a key.  Its origin is the number of the latest put
there before the read, or `none` if there was no such put. -/
structure Took (c : Cache) (ledger : Ledger) (id : JobId) (record : Record) (store : Nat) (key : String)
    (origin : Option Nat) : Prop where
  answered : ∃ job key', c.jobs[id]? = some job ∧ job.request = .read key' ∧
    job.stage = .finished (.record record)
  found : ∃ later entry before, ledger store = later ++ ⟨id, .get key, .found (some entry)⟩ :: before ∧
    entry.record = record ∧ latestPut key before = origin

/-- The origin is a put of the record at the key, or the key held the record at the start. -/
def PutBy (held : String → Option KeyRecord) (calls : List Made) (key : String) (record : Record) :
    Option Nat → Prop
  | some p => ∃ later made before entry, calls = later ++ made :: before ∧ before.length = p ∧
      made.call = .put entry ∧ made.reply = .done ∧ entry.key = key ∧ entry.record = record
  | none => ∃ entry, held key = some entry ∧ entry.record = record

/-- What burn-after-reading promises of a run. -/
structure BurnsOnce (first : Cache) (events : List Event) : Prop where
  /-- Every record that is read comes from a put or was there at the start. -/
  origin : ∀ (id : JobId) (job : Job) (key' : String) (record : Record),
    (first.steps events).jobs[id]? = some job → job.request = .read key' →
    job.stage = .finished (.record record) → ∃ store key origin,
      Took (first.steps events) (first.ledger events) id record store key origin ∧
      PutBy (heldIn first.shelves store) (first.ledger events store) key record origin
  /-- No two reads are answered with the record of one put if it is to be read once. -/
  once : ∀ {id₁ id₂ : JobId} {record₁ record₂ : Record} {store : Nat} {key₁ key₂ : String}
    {origin : Option Nat},
    record₁.metadata.burnAfterReading = true →
    Took (first.steps events) (first.ledger events) id₁ record₁ store key₁ origin →
    Took (first.steps events) (first.ledger events) id₂ record₂ store key₂ origin →
    (origin = none → key₁ = key₂) → id₁ = id₂
  /-- A read that cannot delete what it has found is answered with the fault and nothing else. -/
  unburned : ∀ (id : JobId) (job : Job) (key' : String) (store : Nat) (key : String) (fault : StoreFault),
    (first.steps events).jobs[id]? = some job → job.request = .read key' →
    ⟨id, .delete key, .failed fault⟩ ∈ first.ledger events store →
      (∀ answer, (first.steps events).answer? id = some answer → answer = .failed (.backend fault)) ∧
      ((first.steps events).run id).answer? id = some (.failed (.backend fault))
  counted : (first.steps events).counters.burned = (first.steps events).jobs.countP Job.burned
  /-- All records come from writes: no more of them are burned than were written. -/
  bounded : (∀ store key, heldIn first.shelves store key = none) →
    (∀ job ∈ (first.steps events).jobs, ∀ entry, ¬job.request.Lists (.put entry)) →
    (first.steps events).counters.burned ≤ (first.steps events).jobs.countP Job.burnWritten

/-! ### Calls in their places -/

private theorem split_of_eq {id : JobId} {later before later' before' : List Made}
    {mine : List (StoreCall × Reply)} {call : StoreCall} {reply : Reply}
    (hlater : ∀ made ∈ later, made.job ≠ id) (hbefore : ∀ made ∈ before, made.job ≠ id)
    (h : later ++ (mine.map (fun m => (⟨id, m.1, m.2⟩ : Made)) ++ before) =
      later' ++ ⟨id, call, reply⟩ :: before') :
    ∃ mine₁ mine₂, mine = mine₁ ++ (call, reply) :: mine₂ ∧
      before' = mine₂.map (fun m => (⟨id, m.1, m.2⟩ : Made)) ++ before := by
  induction later generalizing later' with
  | nil =>
    rw [List.nil_append] at h
    induction mine generalizing later' with
    | nil =>
      refine absurd rfl (hbefore ⟨id, call, reply⟩ ?_)
      rw [List.map_nil, List.nil_append] at h
      simp [h]
    | cons m mine ih =>
      cases later' with
      | nil =>
        cases h
        exact ⟨[], mine, rfl, rfl⟩
      | cons made later' =>
        rw [List.map_cons, List.cons_append, List.cons_append] at h
        obtain ⟨mine₁, mine₂, rfl, hb⟩ := ih (List.cons.inj h).2
        exact ⟨m :: mine₁, mine₂, rfl, hb⟩
  | cons made later ih =>
    cases later' with
    | nil =>
      cases h
      exact absurd rfl (hlater _ List.mem_cons_self)
    | cons made' later' =>
      rw [List.cons_append, List.cons_append] at h
      exact ih (fun made hm => hlater made (List.mem_cons_of_mem _ hm)) (List.cons.inj h).2

variable {ledger : Ledger} {id : JobId} {store : Nat}

theorem Ledger.Placed.split {later before : List Made} {mine : List (StoreCall × Reply)}
    (h : ledger.Placed id store later mine before) {s : Nat} {later' before' : List Made} {call : StoreCall}
    {reply : Reply} (hs : ledger s = later' ++ ⟨id, call, reply⟩ :: before') :
    s = store ∧ ∃ mine₁ mine₂, mine = mine₁ ++ (call, reply) :: mine₂ ∧
      before' = mine₂.map (fun m => (⟨id, m.1, m.2⟩ : Made)) ++ before := by
  have hmem : (⟨id, call, reply⟩ : Made) ∈ ledger s := by simp [hs]
  obtain ⟨rfl, -⟩ := h.mem hmem rfl
  have honly := h.only s
  rw [if_pos rfl] at honly
  rw [h.calls, List.append_assoc] at hs
  refine ⟨rfl, split_of_eq ?_ ?_ hs⟩
  · exact fun made hm => honly made (List.mem_append_left _ hm)
  · exact fun made hm => honly made (List.mem_append_right _ hm)

namespace Account

variable {held : Nat → String → Option KeyRecord} {c : Cache} {record : Record} {key : String}
  {origin : Option Nat}

theorem putBy (h : Account held c ledger) {later before : List Made} {entry : KeyRecord}
    (hs : ledger store = later ++ ⟨id, .get key, .found (some entry)⟩ :: before) :
    PutBy (held store) (ledger store) key entry.record (latestPut key before) := by
  have hget : some entry = found (held store) key before := (h.consistent store).get hs
  rcases put_of_found hget.symm with ⟨hnone, hheld⟩ | ⟨later', made, before', rfl, hput, hcall, hreply, hkey⟩
  · rw [hnone]
    exact ⟨entry, hheld, rfl⟩
  · rw [hput]
    refine ⟨later ++ ⟨id, .get key, .found (some entry)⟩ :: later', made, before', entry, ?_, rfl, hcall,
      hreply, hkey, rfl⟩
    rw [hs, List.append_assoc]
    rfl

/-- An answered read has found its record, and deleted it if it was to be read once. -/
theorem took (h : Account held c ledger) {job : Job} {key' : String} (hj : c.jobs[id]? = some job)
    (hr : job.request = .read key') (hs : job.stage = .finished (.record record)) :
    ∃ store key later entry before, entry.record = record ∧
      (ledger store = later ++ ⟨id, .get key, .found (some entry)⟩ :: before ∧
          record.metadata.burnAfterReading = false ∨
        ledger store = later ++ ⟨id, .delete key, .done⟩ :: ⟨id, .get key, .found (some entry)⟩ :: before ∧
          record.metadata.burnAfterReading = true) ∧
      ∀ s later' key' entry' before', ledger s = later' ++ ⟨id, .get key', .found (some entry')⟩ :: before' →
        s = store ∧ key' = key ∧ before' = before := by
  cases h.jobs id job hj with
  | other hc => exact absurd (by rw [hr]; trivial) hc
  | @call store later mine before hc htrail hp hi =>
    rw [hs] at htrail
    have hcalls := hp.calls
    cases htrail with
    | finished hout =>
      cases hout with
      | refused hplain => exact absurd rfl (hplain.2 record)
      | missed hplain => exact absurd rfl (hplain.2 record)
      | @read key entry _ hb =>
        refine ⟨store, key, later, entry, before, rfl, .inl ⟨by simpa using hcalls, hb⟩, ?_⟩
        intro s later' key' entry' before' hs'
        obtain ⟨rfl, mine₁, mine₂, hmine, hbefore⟩ := hp.split hs'
        cases mine₁ with
        | nil =>
          cases hmine
          exact ⟨rfl, rfl, hbefore⟩
        | cons m mine₁ => simp at hmine
      | @burned key entry _ hb =>
        refine ⟨store, key, later, entry, before, rfl, .inr ⟨by simpa using hcalls, hb⟩, ?_⟩
        intro s later' key' entry' before' hs'
        obtain ⟨rfl, mine₁, mine₂, hmine, hbefore⟩ := hp.split hs'
        match mine₁, hmine with
        | [], hmine => cases hmine
        | [_], hmine =>
          cases hmine
          exact ⟨rfl, rfl, hbefore⟩
        | _ :: _ :: mine₁, hmine => simp at hmine

/-- A read that has taken a record to be read once has deleted it at once. -/
theorem burnt (h : Account held c ledger) (ht : Took c ledger id record store key origin)
    (hb : record.metadata.burnAfterReading = true) : ∃ later entry before,
      ledger store = later ++ ⟨id, .delete key, .done⟩ :: ⟨id, .get key, .found (some entry)⟩ :: before ∧
      latestPut key before = origin := by
  obtain ⟨⟨job, key', hj, hr, hs⟩, later, entry, before, hfound, -, hput⟩ := ht
  obtain ⟨store', key', later', entry', before', -, hcalls, hunique⟩ := h.took hj hr hs
  obtain ⟨rfl, rfl, rfl⟩ := hunique store later key entry before hfound
  rcases hcalls with ⟨-, hb'⟩ | ⟨hcalls, -⟩
  · rw [hb] at hb'
    cases hb'
  · exact ⟨later', entry', before, hcalls, hput⟩

end Account

theorem PutBy.unique {held : String → Option KeyRecord} {calls : List Made} {key₁ key₂ : String}
    {record₁ record₂ : Record} {origin : Option Nat} (h₁ : PutBy held calls key₁ record₁ origin)
    (h₂ : PutBy held calls key₂ record₂ origin) (hkey : origin = none → key₁ = key₂) :
    key₁ = key₂ ∧ record₁ = record₂ := by
  cases origin with
  | none =>
    obtain rfl := hkey rfl
    obtain ⟨entry₁, hheld₁, rfl⟩ := h₁
    obtain ⟨entry₂, hheld₂, rfl⟩ := h₂
    rw [hheld₁] at hheld₂
    cases hheld₂
    exact ⟨rfl, rfl⟩
  | some p =>
    obtain ⟨later₁, made₁, before₁, entry₁, hs₁, hp₁, hcall₁, -, rfl, rfl⟩ := h₁
    obtain ⟨later₂, made₂, before₂, entry₂, hs₂, hp₂, hcall₂, -, rfl, rfl⟩ := h₂
    obtain ⟨-, heq⟩ := List.append_inj' (hs₁.symm.trans hs₂) (by simp [hp₁, hp₂])
    cases heq
    rw [hcall₁] at hcall₂
    cases hcall₂
    exact ⟨rfl, rfl⟩

namespace Account

variable {held : Nat → String → Option KeyRecord} {c : Cache}

theorem once (h : Account held c ledger) {id₁ id₂ : JobId} {record₁ record₂ : Record} {key₁ key₂ : String}
    {origin : Option Nat} (hb : record₁.metadata.burnAfterReading = true)
    (h₁ : Took c ledger id₁ record₁ store key₁ origin) (h₂ : Took c ledger id₂ record₂ store key₂ origin)
    (hkey : origin = none → key₁ = key₂) : id₁ = id₂ := by
  have hput {id : JobId} {record : Record} {key : String} (ht : Took c ledger id record store key origin) :
      PutBy (held store) (ledger store) key record origin := by
    obtain ⟨later, entry, before, hs, rfl, rfl⟩ := ht.found
    exact h.putBy hs
  obtain ⟨rfl, rfl⟩ := (hput h₁).unique (hput h₂) hkey
  obtain ⟨later₁, entry₁, before₁, hs₁, hput₁⟩ := h.burnt h₁ hb
  obtain ⟨later₂, entry₂, before₂, hs₂, hput₂⟩ := h.burnt h₂ hb
  by_cases hne : id₁ = id₂
  · exact hne
  · -- Whichever came first has deleted the record before the other one looked for it.
    rcases Nat.le_total before₁.length before₂.length with hle | hle
    · exact absurd (hput₁.trans hput₂.symm) (latestPut_ne (h.consistent store) hne hs₁ hs₂ hle)
    · exact absurd (hput₂.trans hput₁.symm) (latestPut_ne (h.consistent store) (Ne.symm hne) hs₂ hs₁ hle)

/-- What a read has come to after a failed deletion. -/
theorem unburned (h : Account held c ledger) {job : Job} {key key' : String} {fault : StoreFault}
    (hj : c.jobs[id]? = some job) (hr : job.request = .read key')
    (hm : ⟨id, .delete key, .failed fault⟩ ∈ ledger store) :
    job.stage = .finished (.failed (.backend fault)) ∨
      ∃ store record, job.stage = .returned store (.burn key record) (.failed fault) := by
  cases h.jobs id job hj with
  | other hc => exact absurd (by rw [hr]; trivial) hc
  | call hc htrail hp hi =>
    have hmine := (hp.mem hm rfl).2
    generalize job.stage = stage at htrail
    rw [hr] at htrail
    cases htrail with
    | returned hfirst hcall =>
      cases hfirst with
      | put hmakes =>
        obtain ⟨_, _, _, _, hwrite, -⟩ := hmakes
        cases hwrite
      | get =>
        cases hcall
        simp at hmine
      | delete hdelete =>
        obtain ⟨_, hdelete⟩ := hdelete
        cases hdelete
    | toBurn => simp at hmine
    | @burn store key'' entry reply _ _ _ _ =>
      have heq : key = key'' ∧ Reply.failed fault = reply := by simpa using hmine
      obtain ⟨rfl, rfl⟩ := heq
      exact .inr ⟨store, entry.record, rfl⟩
    | finished hout =>
      left
      cases hout with
      | @failed call fault' =>
        have heq : .delete key = call ∧ fault = fault' := by simpa using hmine
        rw [heq.2]
      | @unburned key'' entry fault' =>
        have heq : key = key'' ∧ fault = fault' := by simpa using hmine
        rw [heq.2]
      | _ => simp at hmine
    | _ => simp at hmine

end Account

theorem Cache.answer?_run_burn {c : Cache} {id : JobId} {job : Job} {store : Nat} {key : String}
    {record : Record} {fault : StoreFault} (hj : c.jobs[id]? = some job)
    (hs : job.stage = .returned store (.burn key record) (.failed fault)) :
    (c.run id).answer? id = some (.failed (.backend fault)) := by
  have hrun : c.run id = (c.leave store id).finish id (.failed (.backend fault)) := by
    simp only [run, hj, hs]
    rfl
  rw [hrun]
  simp [answer?, stage?, finish, setStage, leave, setLock, hj]

/-! ### Writes of records to be read once -/

/-- A record is to be read once if the options of its write say so. -/
theorem Record.burns_applyAll {record record' : Record} {options : List WriteOption}
    (h : record.applyAll options = .ok record') :
    record'.metadata.burnAfterReading =
      (record.metadata.burnAfterReading || options.contains .burnAfterReading) := by
  rw [eq_given_of_applyAll h]
  rfl

theorem Request.Makes.burns {request : Request} {entry : KeyRecord} (h : request.Makes entry) :
    ∃ key data options, request = .write key data options ∧
      entry.record.metadata.burnAfterReading = options.contains .burnAfterReading := by
  obtain ⟨now, key, data, options, hr, hfresh⟩ := h
  refine ⟨key, data, options, hr, ?_⟩
  unfold freshEntry at hfresh
  split at hfresh
  next => cases hfresh
  next => cases hfresh
  next =>
    split at hfresh
    next => cases hfresh
    next record happly =>
      split at hfresh
      next =>
        cases hfresh
        rw [Record.burns_applyAll happly]
        rfl
      next => cases hfresh

namespace Account

variable {held : Nat → String → Option KeyRecord} {c : Cache}

/-- A put of a write is the only call of its job, and the job has answered unless nothing came after it. -/
theorem writer (h : Account held c ledger) {later before : List Made} {entry : KeyRecord}
    (hlists : ∀ job ∈ c.jobs, ∀ entry, ¬job.request.Lists (.put entry))
    (hs : ledger store = later ++ ⟨id, .put entry, .done⟩ :: before) :
    ∃ job, c.jobs[id]? = some job ∧ job.request.Makes entry ∧ (job.stage = .finished .written ∨ later = []) ∧
      ∀ s later' entry' before', ledger s = later' ++ ⟨id, .put entry', .done⟩ :: before' →
        s = store ∧ before' = before := by
  obtain ⟨job, hj, hput⟩ := h.makers store ⟨id, .put entry, .done⟩ (by simp [hs])
  have hnone := hlists job (List.mem_of_getElem? hj) entry
  refine ⟨job, hj, ?_⟩
  cases h.jobs id job hj with
  | other hc => exact absurd (hput entry rfl) (by simp [hc, hnone])
  | @call store' later' mine before' hc htrail hp hi =>
    obtain ⟨rfl, mine₁, mine₂, hmine, hbefore⟩ := hp.split hs
    -- The trail of a job has a put only if it is the trail of a write, and then there is nothing else in it.
    have htrail' : job.request.Makes entry ∧ mine = [(.put entry, .done)] ∧
        (job.stage = .finished .written ∨ job.stage.inside? ≠ none) := by
      have hmem : ((.put entry, .done) : StoreCall × Reply) ∈ mine := by simp [hmine]
      generalize job.stage = stage at htrail
      cases htrail with
      | returned hfirst hcall =>
        cases hfirst with
        | put hmakes =>
          cases hcall
          obtain ⟨rfl, rfl⟩ : entry = _ ∧ Reply.done = _ := by simpa using hmem
          exact ⟨hmakes, rfl, .inr nofun⟩
        | get => cases hcall; simp at hmem
        | delete => cases hcall; simp at hmem
      | finished hout =>
        cases hout with
        | written hmakes =>
          obtain rfl : entry = _ := by simpa using hmem
          exact ⟨hmakes, rfl, .inl rfl⟩
        | _ => simp at hmem
      | _ => simp at hmem
    obtain ⟨hmakes, rfl, hstage⟩ := htrail'
    have hplace {s : Nat} {later'' before'' : List Made} {entry' : KeyRecord}
        (hs'' : ledger s = later'' ++ ⟨id, .put entry', .done⟩ :: before'') :
          s = store ∧ before'' = before' := by
      obtain ⟨rfl, mine₁, mine₂, hmine, hbefore⟩ := hp.split hs''
      cases mine₁ with
      | nil =>
        cases hmine
        exact ⟨rfl, hbefore⟩
      | cons m mine₁ => simp at hmine
    obtain ⟨-, rfl⟩ := hplace hs
    refine ⟨hmakes, ?_, fun s later'' entry' before'' => hplace⟩
    rcases hstage with hover | hinside
    · exact .inl hover
    · right
      obtain ⟨s, hs'⟩ := Option.ne_none_iff_exists'.1 hinside
      obtain ⟨-, rfl⟩ := hi s hs'
      have hlength := congrArg List.length (hp.calls.symm.trans hs)
      simpa using hlength

/-- The put that a read has taken its record from is that of a write which has been acknowledged. -/
theorem source (h : Account held c ledger) (hempty : ∀ s key, held s key = none)
    (hlists : ∀ job ∈ c.jobs, ∀ entry, ¬job.request.Lists (.put entry)) {job : Job}
    (hj : c.jobs[id]? = some job) (hb : job.burned = true) :
    ∃ record store key p w writer later before entry, record.metadata.burnAfterReading = true ∧
      Took c ledger id record store key (some p) ∧ ledger store = later ++ ⟨w, .put entry, .done⟩ :: before ∧
      before.length = p ∧ c.jobs[w]? = some writer ∧ writer.burnWritten = true := by
  unfold Job.burned at hb
  split at hb
  next key' record hr hs =>
    obtain ⟨store, key, later, entry, before, rfl, hcalls, -⟩ := h.took hj hr hs
    obtain ⟨later', hfound⟩ : ∃ later', ledger store = later' ++ ⟨id, .get key, .found (some entry)⟩ :: before ∧
        later' ≠ [] := by
      rcases hcalls with ⟨-, hb'⟩ | ⟨hcalls, -⟩
      · rw [hb] at hb'
        cases hb'
      · exact ⟨later ++ [⟨id, .delete key, .done⟩], by simp [hcalls], by simp⟩
    have hput := h.putBy hfound.1
    have htook : Took c ledger id entry.record store key (latestPut key before) :=
      ⟨⟨job, key', hj, hr, hs⟩, later', entry, before, hfound.1, rfl, rfl⟩
    cases horigin : latestPut key before with
    | none =>
      rw [horigin] at hput
      obtain ⟨entry', hheld, -⟩ := hput
      rw [hempty] at hheld
      cases hheld
    | some p =>
      rw [horigin] at hput htook
      obtain ⟨later'', ⟨w, call, reply⟩, before'', entry', hs'', hp, rfl, rfl, -, hrecord⟩ := hput
      obtain ⟨writer, hw, hmakes, hover, -⟩ := h.writer hlists hs''
      refine ⟨_, store, key, p, w, writer, later'', before'', entry', hb, htook, hs'', hp, hw, ?_⟩
      -- The read came after the put, so the write has made its only call and has been answered.
      have hlater : later'' ≠ [] := by
        rintro rfl
        have hlt := latestPut_lt horigin
        have hlength := congrArg List.length (hfound.1.symm.trans hs'')
        simp at hlength
        omega
      obtain ⟨key'', data, options, hwrite, hburns⟩ := hmakes.burns
      simp only [Job.burnWritten, hwrite, hover.resolve_right hlater]
      rw [← hburns, hrecord, hb]
  next => cases hb

end Account

/-! ### Counting -/

private theorem card_eq_countP {α : Type} (p : α → Bool) (l : List α) :
    (Finset.univ.filter fun i : Fin l.length => p l[i] = true).card = l.countP p := by
  induction l with
  | nil => rfl
  | cons a l ih =>
    rw [List.countP_cons, ← ih]
    show (Finset.univ.filter fun i : Fin (l.length + 1) => p (a :: l)[i] = true).card = _
    rw [Fin.card_filter_univ_succ']
    exact Nat.add_comm ..

private theorem countP_le_countP {α : Type} {p q : α → Bool} {l : List α}
    (r : Fin l.length → Fin l.length → Prop)
    (hr : ∀ i, p l[i] = true → ∃ j, q l[j] = true ∧ r i j) (hinj : ∀ i i' j, r i j → r i' j → i = i') :
    l.countP p ≤ l.countP q := by
  rw [← card_eq_countP, ← card_eq_countP]
  refine Finset.card_le_card_of_forall_subsingleton r (fun i hi => ?_) fun j _ i hi i' hi' => ?_
  · obtain ⟨j, hq, hij⟩ := hr i (Finset.mem_filter.1 hi).2
    exact ⟨j, Finset.mem_filter.2 ⟨Finset.mem_univ j, hq⟩, hij⟩
  · exact hinj i i' j hi.2 hi'.2

namespace Account

variable {held : Nat → String → Option KeyRecord} {c : Cache}

theorem bounded (h : Account held c ledger) (hempty : ∀ s key, held s key = none)
    (hlists : ∀ job ∈ c.jobs, ∀ entry, ¬job.request.Lists (.put entry)) :
    c.jobs.countP Job.burned ≤ c.jobs.countP Job.burnWritten := by
  -- Each burned read is put down to the write of its record, and no two of them to the same one.
  refine countP_le_countP (fun i w => ∃ record store key p later before entry,
    record.metadata.burnAfterReading = true ∧ Took c ledger i record store key (some p) ∧
    ledger store = later ++ ⟨w, .put entry, .done⟩ :: before ∧ before.length = p) (fun i hb => ?_) ?_
  · have hj : c.jobs[i.val]? = some c.jobs[i] := List.getElem?_eq_getElem i.isLt
    obtain ⟨record, store, key, p, w, writer, later, before, entry, hburn, htook, hs, hp, hw, hwritten⟩ :=
      h.source hempty hlists hj hb
    obtain ⟨hlt, rfl⟩ := List.getElem?_eq_some_iff.1 hw
    exact ⟨⟨w, hlt⟩, hwritten, record, store, key, p, later, before, entry, hburn, htook, hs, hp⟩
  · rintro i i' w ⟨record, store, key, p, later, before, entry, hburn, htook, hs, hp⟩
      ⟨record', store', key', p', later', before', entry', -, htook', hs', hp'⟩
    obtain ⟨job, -, -, -, hunique⟩ := h.writer hlists hs
    obtain ⟨rfl, rfl⟩ := hunique store' later' entry' before' hs'
    obtain rfl : p = p' := hp.symm.trans hp'
    exact Fin.ext (h.once hburn htook htook' nofun)

end Account

/-! ### Runs -/

theorem Account.of_unused {first : Cache} (h : first.Unused) (hcounters : first.counters = {}) :
    Account (heldIn first.shelves) first (fun _ => []) where
  locks := .of_unused h
  content _ _ := rfl
  consistent _ := trivial
  jobs id job hj := by simp [h.jobs] at hj
  makers s made hm := by simp at hm
  burned := by simp [h.jobs, hcounters]

namespace Cache

/-- Burn-after-reading is single use in every run of a cache, over whatever stores. -/
theorem burns_once {first : Cache} (hunused : first.Unused) (hcounters : first.counters = {})
    (events : List Event) : BurnsOnce first events := by
  have h : Account (heldIn first.shelves) (first.steps events) (first.ledger events) :=
    (Account.of_unused hunused hcounters).steps events
  refine ⟨?_, h.once, ?_, h.burned, ?_⟩
  · intro id job key' record hj hr hs
    obtain ⟨store, key, later, entry, before, rfl, hcalls, -⟩ := h.took hj hr hs
    obtain ⟨later', hfound⟩ : ∃ later', first.ledger events store =
        later' ++ ⟨id, .get key, .found (some entry)⟩ :: before := by
      rcases hcalls with ⟨hcalls, -⟩ | ⟨hcalls, -⟩
      · exact ⟨later, hcalls⟩
      · exact ⟨later ++ [⟨id, .delete key, .done⟩], by simp [hcalls]⟩
    exact ⟨store, key, _, ⟨⟨job, key', hj, hr, hs⟩, later', entry, before, hfound, rfl, rfl⟩, h.putBy hfound⟩
  · intro id job key' store key fault hj hr hm
    rcases h.unburned hj hr hm with hover | ⟨store', record, hs⟩
    · have hanswer : (first.steps events).answer? id = some (.failed (.backend fault)) := by
        simp [answer?, stage?_eq hj, hover]
      have hrun : (first.steps events).run id = first.steps events := by simp only [run, hj, hover]
      refine ⟨fun answer ha => ?_, by rw [hrun, hanswer]⟩
      rw [hanswer] at ha
      exact (Option.some.inj ha).symm
    · refine ⟨fun answer ha => ?_, answer?_run_burn hj hs⟩
      simp [answer?, stage?_eq hj, hs] at ha
  · intro hempty hlists
    rw [h.burned]
    exact h.bounded hempty hlists

/-- Two reads are in a queue for a record to be read once, and the first of them gets it. -/
theorem burns_once_two_reads :
    let first := fresh ⟨KeyMap.empty.insert "a" 0⟩ [.memory .empty] 0 0 (.ofInstant default)
    let events : List Event := [.start (.write "a/k" [7] [.burnAfterReading]) .never,
      .start (.read "a/k") .never, .start (.read "a/k") .never, .run 0, .run 1, .run 2, .run 0, .run 1, .run 1,
      .run 1, .run 2, .run 2]
    first.Unused ∧ first.counters = {} ∧ BurnsOnce first events ∧
      (first.steps events).answer? 2 = some (.failed (.notFound "a/k")) ∧
      (first.steps events).counters.burned = 1 := by
  intro first events
  have hu : first.Unused := unused_fresh ..
  have honce := burns_once hu rfl events
  have hjobs : (first.steps events).jobs.map (·.stage) = [.finished .written,
      .finished (.record ⟨[7], { createdAt := default, burnAfterReading := true }⟩),
      .finished (.failed (.notFound "a/k"))] := by decide +kernel
  have hread : (first.steps events).stage? 2 = some (.finished (.failed (.notFound "a/k"))) := by
    rw [stage?, ← List.getElem?_map, hjobs]
    rfl
  refine ⟨hu, rfl, honce, ?_, by decide +kernel⟩
  simp only [answer?, hread]

end Cache

end RoutedCache

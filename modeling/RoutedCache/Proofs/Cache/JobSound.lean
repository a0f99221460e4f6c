import RoutedCache.Proofs.Cache.Serial
import RoutedCache.Proofs.Store.Faithful

/-!
# Jobs in the journal

Where a job stands is what the journal says about it (`JobSound`): outside the stores, at work in one of them with
its stay under way, or over with the answer of its stay.  What one job does changes the journal in its own stays
only (`Journal.Follows`), and this leaves the other jobs sound (`Journal.Follows.jobSound`).
-/

namespace RoutedCache

def recordsAt (shelves : List Shelf) (store : Nat) : KeyMap Record :=
  match shelves[store]? with
  | some shelf => shelf.store.records
  | none => .empty

def Cache.records (c : Cache) (store : Nat) : KeyMap Record := recordsAt c.shelves store

namespace Journal

/-- The job has not been in any store. -/
def Lacks (journal : Journal) (id : JobId) : Prop := ∀ s, ∀ stay ∈ journal.stays s, stay.job ≠ id

/-- The answer to a call is that of its only stay, with the records that the stays before it leave behind, or the
call has never been in a store: then it has been cancelled, or it was answered when it began. -/
def Answered (journal : Journal) (mounts : MountTable Nat) (start : Nat → KeyMap Record) (id : JobId)
    (request : Request) (answer : Answer) : Prop :=
  (∃ store later act before, journal.stays store = later ++ ⟨id, act⟩ :: before ∧
    (∀ s, ∀ stay ∈ if s = store then later ++ before else journal.stays s, stay.job ≠ id) ∧
    (act.apply (replay (start store) before)).1 = some answer) ∨
  journal.Lacks id ∧ (answer = .failed .cancelled ∨
    ∃ clock, journal.started id = some clock ∧ request.route mounts clock = .error answer)

end Journal

/-- Where a job stands is what the journal says about it. -/
inductive JobSound (mounts : MountTable Nat) (start : Nat → KeyMap Record) (journal : Journal) (id : JobId)
    (job : Job) : Prop
  | outside (h : Outside mounts (journal.started id) job.request job.stage)
      (hn : job.request.IsCall ∨ job.stage = .ready → journal.Lacks id)
  | inside {store act before} (hs : journal.stays store = ⟨id, act⟩ :: before)
      (h : Ongoing mounts (journal.started id) job.request (replay (start store) before) store act job.stage)
      (hn : job.request.IsCall → ∀ s, ∀ stay ∈ if s = store then before else journal.stays s, stay.job ≠ id)
  | finished {answer} (h : job.stage = .finished answer)
      (ha : job.request.IsCall → journal.Answered mounts start id job.request answer)

theorem Outside.inside? {mounts : MountTable Nat} {start : Option Clock} {request : Request} {stage : Stage}
    (h : Outside mounts start request stage) : stage.inside? = none := by
  cases h <;> rfl

theorem Ongoing.inside? {mounts : MountTable Nat} {start : Option Clock} {request : Request}
    {entries : KeyMap Record} {store : Nat} {act : Act} {stage : Stage}
    (h : Ongoing mounts start request entries store act stage) : stage.inside? = some store := by
  cases h <;> rfl

namespace JobSound

variable {mounts : MountTable Nat} {start : Nat → KeyMap Record} {journal : Journal} {id : JobId} {job : Job}

/-- A job at work in a store has the latest stay there. -/
theorem of_inside (h : JobSound mounts start journal id job) {store : Nat}
    (hi : job.stage.inside? = some store) :
    ∃ act before, journal.stays store = ⟨id, act⟩ :: before ∧
      Ongoing mounts (journal.started id) job.request (replay (start store) before) store act job.stage ∧
      (job.request.IsCall → ∀ s, ∀ stay ∈ if s = store then before else journal.stays s, stay.job ≠ id) := by
  cases h with
  | outside ho =>
    rw [ho.inside?] at hi
    cases hi
  | @inside store' act before hs hg hn =>
    rw [hg.inside?] at hi
    cases hi
    exact ⟨act, before, hs, hg, hn⟩
  | finished hstage =>
    rw [hstage] at hi
    cases hi

/-- A job outside the stores that is not over. -/
theorem of_outside (h : JobSound mounts start journal id job) (hi : job.stage.inside? = none)
    (hover : ∀ answer, job.stage ≠ .finished answer) :
    Outside mounts (journal.started id) job.request job.stage ∧
      (job.request.IsCall ∨ job.stage = .ready → journal.Lacks id) := by
  cases h with
  | outside ho hn => exact ⟨ho, hn⟩
  | inside hs hg =>
    rw [hg.inside?] at hi
    cases hi
  | finished hstage => exact absurd hstage (hover _)

/-- A job that goes over the mounts makes no call, so nothing is asked of its stays. -/
theorem of_sweeps {stage : Stage} (hr : job.request.Sweeps)
    (ho : Outside mounts (journal.started id) job.request stage) (hne : stage ≠ .ready) :
    JobSound mounts start journal id { job with stage } :=
  .outside ho fun hc => hc.elim (fun hc => absurd hc hr.not_isCall) fun hc => absurd hc hne

/-- The mounts that the sweep of a mount has before it are mounts of the table. -/
theorem cycles (h : JobSound mounts start journal id job) {store : Nat} {cycle : SweepCycle}
    (hk : job.stage.sweeping? = some (store, cycle)) : Cycles mounts job.request cycle := by
  cases h with
  | outside ho _ =>
    generalize job.stage = stage at ho hk
    cases ho with
    | queued hasks =>
      cases hasks with
      | call hadmitted =>
        obtain ⟨clock, -, hroute⟩ := hadmitted
        generalize job.request = request at hroute
        cases Request.routed hroute <;> cases hk
      | mount _ hcycle =>
        cases hk
        exact hcycle
    | _ => cases hk
  | inside _ hg _ =>
    generalize job.stage = stage at hg hk
    cases hg with
    | list _ hcycle =>
      cases hk
      exact hcycle
    | evict _ hcycle _ =>
      cases hk
      exact hcycle
    | _ => cases hk
  | finished hstage _ =>
    rw [hstage] at hk
    cases hk

end JobSound

/-! ### Other jobs -/

/-- The journals differ in stays of one job in one store only. -/
structure Journal.Follows (id : JobId) (store : Nat) (pre pre' common : List Stay)
    (journal journal' : Journal) : Prop where
  started : journal'.started = journal.started
  before : journal.stays store = pre ++ common
  after : journal'.stays store = pre' ++ common
  other : ∀ s, s ≠ store → journal'.stays s = journal.stays s
  own : ∀ stay ∈ pre ++ pre', stay.job = id

namespace Journal.Follows

variable {id j : JobId} {store : Nat} {pre pre' common : List Stay} {journal journal' : Journal}

theorem refl (id : JobId) (journal : Journal) : Follows id 0 [] [] (journal.stays 0) journal journal :=
  ⟨rfl, rfl, rfl, fun _ _ => rfl, fun _ h => nomatch h⟩

theorem enter (id : JobId) (store : Nat) (act : Act) (journal : Journal) :
    Follows id store [] [⟨id, act⟩] (journal.stays store) journal (journal.change store (⟨id, act⟩ :: ·)) where
  started := rfl
  before := rfl
  after := by simp [change]
  other s hs := by simp [change, hs]
  own stay hstay := by
    rw [List.mem_singleton.1 hstay]

theorem amend {act : Act} (h : journal.stays store = ⟨id, act⟩ :: common) (f : Act → Act) :
    Follows id store [⟨id, act⟩] [⟨id, f act⟩] common journal (journal.change store (Journal.amend id f)) where
  started := rfl
  before := h
  after := by simp [change, h, Journal.amend]
  other s hs := by simp [change, hs]
  own stay hstay := by
    have hor : stay = ⟨id, act⟩ ∨ stay = ⟨id, f act⟩ := by simpa using hstay
    rcases hor with rfl | rfl <;> rfl

theorem job_ne (h : Follows id store pre pre' common journal journal') (hne : j ≠ id) {s : Nat}
    (hs : ∀ stay ∈ journal.stays s, stay.job ≠ j) : ∀ stay ∈ journal'.stays s, stay.job ≠ j := by
  intro stay hstay
  by_cases hss : s = store
  · subst hss
    rw [h.after] at hstay
    rcases List.mem_append.1 hstay with hstay | hstay
    · rw [h.own stay (List.mem_append_right _ hstay)]
      exact Ne.symm hne
    · exact hs stay (by rw [h.before]; exact List.mem_append_right _ hstay)
  · rw [h.other s hss] at hstay
    exact hs stay hstay

theorem lacks (h : Follows id store pre pre' common journal journal') (hne : j ≠ id) (hl : journal.Lacks j) :
    journal'.Lacks j := fun s => h.job_ne hne (hl s)

/-- A stay of another job is still there, after the same stays. -/
theorem split (h : Follows id store pre pre' common journal journal') (hne : j ≠ id) {s : Nat}
    {later before : List Stay} {act : Act} (hs : journal.stays s = later ++ ⟨j, act⟩ :: before)
    (hn : ∀ stay ∈ later ++ before, stay.job ≠ j) :
    ∃ later', journal'.stays s = later' ++ ⟨j, act⟩ :: before ∧ ∀ stay ∈ later' ++ before, stay.job ≠ j := by
  by_cases hss : s = store
  · subst hss
    have hpre : ⟨j, act⟩ ∉ pre := fun hmem => hne (h.own _ (List.mem_append_left _ hmem))
    rw [h.before] at hs
    have hcommon : ∃ later', common = later' ++ ⟨j, act⟩ :: before ∧ later = pre ++ later' := by
      rcases List.append_eq_append_iff.1 hs with ⟨later', rfl, hcommon⟩ | ⟨rest, hsplit, hrest⟩
      · exact ⟨later', hcommon, rfl⟩
      · cases rest with
        | nil => exact ⟨[], hrest.symm, by simpa using hsplit.symm⟩
        | cons first rest =>
          cases hrest
          exact absurd (by simp [hsplit]) hpre
    obtain ⟨later', rfl, rfl⟩ := hcommon
    refine ⟨pre' ++ later', by rw [h.after, List.append_assoc], fun stay hstay => ?_⟩
    simp only [List.append_assoc, List.mem_append] at hstay hn
    rcases hstay with hstay | hstay
    · rw [h.own stay (List.mem_append_right _ hstay)]
      exact Ne.symm hne
    · exact hn stay (.inr hstay)
  · exact ⟨later, by rw [h.other s hss, hs], hn⟩

theorem answered (h : Follows id store pre pre' common journal journal') (hne : j ≠ id)
    {mounts : MountTable Nat} {start : Nat → KeyMap Record} {request : Request} {answer : Answer}
    (ha : journal.Answered mounts start j request answer) :
    journal'.Answered mounts start j request answer := by
  rcases ha with ⟨s, later, act, before, hs, hn, happly⟩ | ⟨hl, ha⟩
  · obtain ⟨later', hs', hn'⟩ := h.split hne hs (by simpa using hn s)
    refine .inl ⟨s, later', act, before, hs', fun t => ?_, happly⟩
    have ht := hn t
    by_cases hts : t = s
    · rw [if_pos hts]
      exact hn'
    · rw [if_neg hts] at ht ⊢
      exact h.job_ne hne ht
  · refine .inr ⟨h.lacks hne hl, ?_⟩
    rw [h.started]
    exact ha

/-- Another job stands where it stood, if it is not in the store whose stays have changed. -/
theorem jobSound (h : Follows id store pre pre' common journal journal') (hne : j ≠ id)
    {mounts : MountTable Nat} {start : Nat → KeyMap Record} {job : Job}
    (hfree : pre ++ pre' ≠ [] → job.stage.inside? ≠ some store)
    (hj : JobSound mounts start journal j job) : JobSound mounts start journal' j job := by
  cases hj with
  | outside ho hn =>
    rw [← h.started] at ho
    exact .outside ho fun hc => h.lacks hne (hn hc)
  | finished hstage ha => exact .finished hstage fun hc => h.answered hne (ha hc)
  | @inside s act before hs ho hn =>
    have hinside : job.stage.inside? = some s := ho.inside?
    have hsame : journal'.stays s = journal.stays s := by
      by_cases hss : s = store
      · subst hss
        have hnil : pre ++ pre' = [] := by
          cases hp : pre ++ pre' with
          | nil => rfl
          | cons first rest => exact absurd hinside (hfree (by simp [hp]))
        obtain ⟨rfl, rfl⟩ := List.append_eq_nil_iff.1 hnil
        rw [h.before, h.after]
      · exact h.other s hss
    rw [← h.started] at ho
    refine .inside (hsame.trans hs) ho fun hc t => ?_
    have ht := hn hc t
    by_cases hts : t = s
    · rw [if_pos hts] at ht ⊢
      exact ht
    · rw [if_neg hts] at ht ⊢
      exact h.job_ne hne ht

end Journal.Follows

end RoutedCache

import RoutedCache.Proofs.Cache.Locks
import RoutedCache.Proofs.Store.Frame

/-!
# What becomes of a shelf

In every run the store of a shelf stays what it is without its entries, and the outages of the shelf only pass
(`Cache.LocksSound.wears_steps`).
-/

namespace RoutedCache

namespace Shelf

/-- The shelf has become another one: the entries and the lock may be different, and outages may have passed. -/
structure Wears (shelf shelf' : Shelf) : Prop where
  bare : shelf'.store.bare = shelf.store.bare
  outages : shelf'.outages <:+ shelf.outages

variable {shelf shelf' shelf'' : Shelf} {c : Cache} {id : JobId} {s : Nat} {visit : Visit} {next : Stage}

namespace Wears

theorem refl (shelf : Shelf) : shelf.Wears shelf := ⟨rfl, List.suffix_rfl⟩

theorem trans (h : shelf.Wears shelf') (h' : shelf'.Wears shelf'') : shelf.Wears shelf'' :=
  ⟨h'.bare.trans h.bare, h'.outages.trans h.outages⟩

theorem requested (shelf : Shelf) : shelf.Wears shelf.requested := ⟨rfl, List.tail_suffix _⟩

theorem locked (shelf : Shelf) (lock : Lock) : shelf.Wears { shelf with lock } := ⟨rfl, List.suffix_rfl⟩

theorem asked (shelf : Shelf) (id : JobId) : shelf.Wears (shelf.asked id) := ⟨rfl, List.tail_suffix _⟩

theorem perform (shelf : Shelf) (call : StoreCall) : shelf.Wears (shelf.perform call).2 := by
  unfold Shelf.perform
  split
  next => exact .requested shelf
  next => exact ⟨Store.bare_perform .., List.tail_suffix _⟩

theorem visits (hv : Visits c id s shelf visit next shelf') : shelf.Wears shelf' := by
  cases hv with
  | hold => exact .refl shelf
  | pause => exact .refl shelf
  | call => exact .perform shelf _
  | done => exact .locked shelf _

end Wears

end Shelf

variable {c : Cache} {id : JobId} {job : Job} {old new : Stage} {shelves : List Shelf} {s : Nat} {shelf : Shelf}

private theorem wears_set {other other' : Shelf} {s' : Nat} (hs' : c.shelves[s']? = some other)
    (hw : other.Wears other') (hs : c.shelves[s]? = some shelf) :
    ∃ shelf', (c.shelves.set s' other')[s]? = some shelf' ∧ shelf.Wears shelf' := by
  by_cases heq : s' = s
  · subst heq
    rw [hs] at hs'
    cases hs'
    exact ⟨other', List.getElem?_set_self (List.getElem?_eq_some_iff.1 hs).1, hw⟩
  · exact ⟨shelf, by rw [List.getElem?_set_ne heq, hs], .refl shelf⟩

theorem Transition.wears (ht : Transition c id job old new shelves) (hs : c.shelves[s]? = some shelf) :
    ∃ shelf', shelves[s]? = some shelf' ∧ shelf.Wears shelf' := by
  cases ht with
  | aside => exact ⟨shelf, hs, .refl shelf⟩
  | refuse _ hs' => exact wears_set hs' (.requested _) hs
  | cancel _ hs' => exact wears_set hs' (.requested _) hs
  | queue _ hs' => exact wears_set hs' (.asked _ id) hs
  | enter _ hs' _ _ _ hv => exact wears_set hs' (.trans (.asked _ id) (.visits hv)) hs
  | grant hs' _ _ hv => exact wears_set hs' (.visits hv) hs
  | call hs' => exact wears_set hs' (.perform _ _) hs
  | stay hs' _ hv => exact wears_set hs' (.visits hv) hs
  | leave _ hs' => exact wears_set hs' (.locked _ _) hs

namespace Cache.LocksSound

theorem wears_step (h : c.LocksSound) (hs : c.shelves[s]? = some shelf) (event : Event) :
    ∃ shelf', (c.step event).shelves[s]? = some shelf' ∧ shelf.Wears shelf' := by
  have heffect := h.effect event
  generalize c.step event = c' at heffect ⊢
  cases heffect with
  | start => exact ⟨shelf, hs, .refl shelf⟩
  | turn _ _ ht => exact ht.wears hs
  | skip _ _ he =>
    cases he with
    | skip _ _ hs' => exact wears_set hs' (.locked _ _) hs
  | complete _ hs' => exact wears_set hs' (.locked _ _) hs
  | aside => exact ⟨shelf, hs, .refl shelf⟩

theorem wears_steps (h : c.LocksSound) (hs : c.shelves[s]? = some shelf) (events : List Event) :
    ∃ shelf', (c.steps events).shelves[s]? = some shelf' ∧ shelf.Wears shelf' := by
  induction events generalizing c shelf with
  | nil => exact ⟨shelf, hs, .refl shelf⟩
  | cons event events ih =>
    obtain ⟨shelf', hs', hw⟩ := h.wears_step hs event
    obtain ⟨shelf'', hs'', hw'⟩ := ih (h.step event) hs'
    exact ⟨shelf'', hs'', hw.trans hw'⟩

end Cache.LocksSound

end RoutedCache

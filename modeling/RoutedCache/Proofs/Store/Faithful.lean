import RoutedCache.Proofs.Store.Documents

/-!
# Faithful stores

A store in memory is faithful, and a collection is if each of its documents can be read and names its own key.  A
call on a faithful store is the call on its records (`Store.Faithful.perform_records`), as a store in memory with
these records would answer it (`Store.perform_inMemory`), and it leaves the store faithful.
-/

namespace RoutedCache

namespace Store

/-- The store with the records of its documents in memory. -/
def inMemory : Store → Store
  | document _ _ _ documents => .memory documents.records
  | store => store

/-- The records of a store. -/
def records : Store → KeyMap Record
  | memory entries => entries
  | document _ _ _ documents => documents.records
  | faulty _ entries => entries

/-- A store in memory or a faithful collection. -/
def Faithful : Store → Prop
  | memory _ => True
  | document _ _ _ documents => documents.Faithful
  | faulty .. => False

variable {store : Store}

theorem perform_inMemory (h : store.Faithful) (call : StoreCall) :
    store.inMemory.perform call = ((store.perform call).1, (store.perform call).2.inMemory) := by
  cases store with
  | memory entries => rfl
  | document file collection opened documents =>
    obtain ⟨hreply, hrecords⟩ := performDocuments_records h call
    simp only [inMemory, perform]
    rw [← hreply, ← hrecords]
  | faulty faults entries => exact h.elim

namespace Faithful

theorem perform (h : store.Faithful) (call : StoreCall) : (store.perform call).2.Faithful := by
  cases store with
  | memory entries => trivial
  | document file collection opened documents => exact Documents.Faithful.performDocuments h call
  | faulty faults entries => exact h.elim

/-- A call is made on the records of the store. -/
theorem perform_records (h : store.Faithful) (call : StoreCall) :
    (store.perform call).1 = (performEntries store.records call).1 ∧
      (store.perform call).2.records = (performEntries store.records call).2 := by
  cases store with
  | memory entries => exact ⟨rfl, rfl⟩
  | document file collection opened documents => exact performDocuments_records h call
  | faulty faults entries => exact h.elim

/-- A faithful store does not keep anybody waiting. -/
theorem delay (h : store.Faithful) (call : StoreCall) : store.delay call = 0 := by
  cases store with
  | faulty faults entries => exact h.elim
  | _ => rfl

theorem lockRefusal? (h : store.Faithful) : store.lockRefusal? = none := by
  cases store with
  | faulty faults entries => exact h.elim
  | _ => rfl

end Faithful

end Store

end RoutedCache

/-!
# Maps with text keys

A `KeyMap` holds at most one value per key and lists its entries by increasing key, that is in byte order of
the keys.  Two maps that answer every look-up alike are equal (`KeyMap.ext_get?`), so `get?` is the view
through which the operations are described.
-/

namespace RoutedCache

universe u v

variable {α : Type u}

structure KeyMap (α : Type u) where
  toList : List (String × α)
  sorted : toList.Pairwise (fun a b => a.1 < b.1)
deriving DecidableEq

namespace KeyMap

def empty : KeyMap α := ⟨[], .nil⟩

instance : Inhabited (KeyMap α) := ⟨empty⟩

def get? (m : KeyMap α) (key : String) : Option α := m.toList.lookup key

def contains (m : KeyMap α) (key : String) : Bool := (m.get? key).isSome

def keys (m : KeyMap α) : List String := m.toList.map (·.1)

/-- Puts the entry in its place, instead of an entry with the same key. -/
def insertEntry (key : String) (value : α) : List (String × α) → List (String × α)
  | [] => [(key, value)]
  | entry :: rest =>
    if key < entry.1 then (key, value) :: entry :: rest
    else if key = entry.1 then (key, value) :: rest
    else entry :: insertEntry key value rest

private theorem mem_insertEntry {key : String} {value : α} {entry : String × α} {l : List (String × α)}
    (h : entry ∈ insertEntry key value l) : entry = (key, value) ∨ entry ∈ l := by
  induction l with
  | nil => simpa [insertEntry] using h
  | cons e rest ih =>
    simp only [insertEntry] at h
    split at h
    · simpa using h
    · split at h
      · rcases List.mem_cons.1 h with h | h
        · exact .inl h
        · exact .inr (List.mem_cons_of_mem _ h)
      · rcases List.mem_cons.1 h with h | h
        · exact .inr (h ▸ List.mem_cons_self ..)
        · exact (ih h).imp_right (List.mem_cons_of_mem _)

private theorem lt_of_not_lt_of_ne {a b : String} (h : ¬a < b) (hne : a ≠ b) : b < a := by
  refine Decidable.byContradiction fun h' => hne ?_
  exact String.le_antisymm (String.not_lt.1 h') (String.not_lt.1 h)

private theorem sorted_insertEntry {key : String} {value : α} {l : List (String × α)}
    (h : l.Pairwise (fun a b => a.1 < b.1)) : (insertEntry key value l).Pairwise (fun a b => a.1 < b.1) := by
  induction l with
  | nil => exact List.pairwise_singleton _ _
  | cons e rest ih =>
    have hr := List.pairwise_cons.1 h
    simp only [insertEntry]
    split
    next hlt =>
      refine List.pairwise_cons.2 ⟨fun x hx => ?_, h⟩
      rcases List.mem_cons.1 hx with rfl | hx
      · exact hlt
      · exact String.lt_trans hlt (hr.1 x hx)
    next hnlt =>
      split
      next heq => exact List.pairwise_cons.2 ⟨fun x hx => heq ▸ hr.1 x hx, hr.2⟩
      next hne =>
        refine List.pairwise_cons.2 ⟨fun x hx => ?_, ih hr.2⟩
        rcases mem_insertEntry hx with rfl | hx
        · exact lt_of_not_lt_of_ne hnlt hne
        · exact hr.1 x hx

def insert (m : KeyMap α) (key : String) (value : α) : KeyMap α :=
  ⟨insertEntry key value m.toList, sorted_insertEntry m.sorted⟩

def erase (m : KeyMap α) (key : String) : KeyMap α :=
  ⟨m.toList.filter (fun entry => entry.1 ≠ key), m.sorted.filter _⟩

def ofList (l : List (String × α)) : KeyMap α := l.foldl (fun m entry => m.insert entry.1 entry.2) empty

/-! ### Look-up after each operation -/

@[simp] theorem get?_empty (key : String) : (empty : KeyMap α).get? key = none := rfl

section Lookup

variable {κ : Type v} [BEq κ] [LawfulBEq κ] [DecidableEq κ]

private theorem lookup_cons_ite (key : κ) (e : κ × α) (rest : List (κ × α)) :
    (e :: rest).lookup key = if key = e.1 then some e.2 else rest.lookup key := by
  rw [List.lookup_cons]
  by_cases h : key = e.1
  · simp [h]
  · simp only [beq_eq_false_iff_ne.2 h, if_neg h]

/-- What a list keeps of its entries when those with one key are left out. -/
theorem lookup_filter_ne {key key' : κ} (l : List (κ × α)) :
    (l.filter (fun entry => entry.1 ≠ key)).lookup key' = if key' = key then none else l.lookup key' := by
  induction l with
  | nil => simp
  | cons e rest ih =>
    rw [lookup_cons_ite]
    by_cases he : e.1 = key
    · rw [List.filter_cons_of_neg (by simpa using he), ih]
      by_cases hk : key' = key
      · simp [hk]
      · simp [hk, he]
    · rw [List.filter_cons_of_pos (by simpa using he), lookup_cons_ite, ih]
      by_cases hk : key' = key
      · subst hk; simp [Ne.symm he]
      · simp [hk]

end Lookup

private theorem lookup_insertEntry {key key' : String} {value : α} {l : List (String × α)} :
    (insertEntry key value l).lookup key' = if key' = key then some value else l.lookup key' := by
  induction l with
  | nil => simp only [insertEntry, lookup_cons_ite]
  | cons e rest ih =>
    simp only [insertEntry]
    split
    next hlt => rw [lookup_cons_ite]
    next hnlt =>
      split
      next heq =>
        rw [lookup_cons_ite, lookup_cons_ite, ← heq]
        by_cases hk : key' = key <;> simp [hk]
      next hne =>
        rw [lookup_cons_ite, lookup_cons_ite, ih]
        by_cases hk : key' = key
        · subst hk; simp [hne]
        · simp [hk]

@[simp] theorem get?_insert (m : KeyMap α) (key key' : String) (value : α) :
    (m.insert key value).get? key' = if key' = key then some value else m.get? key' :=
  lookup_insertEntry

@[simp] theorem get?_erase (m : KeyMap α) (key key' : String) :
    (m.erase key).get? key' = if key' = key then none else m.get? key' :=
  lookup_filter_ne m.toList

/-- The entries are the answered look-ups. -/
theorem mem_toList_iff {m : KeyMap α} {key : String} {value : α} :
    (key, value) ∈ m.toList ↔ m.get? key = some value := by
  obtain ⟨l, hl⟩ := m
  show (key, value) ∈ l ↔ l.lookup key = some value
  induction l with
  | nil => simp
  | cons e rest ih =>
    have hr := List.pairwise_cons.1 hl
    rw [List.mem_cons, lookup_cons_ite]
    by_cases hk : key = e.1
    · have hnot : (key, value) ∉ rest := fun hm => String.lt_irrefl key (by
        have := hr.1 _ hm; rwa [← hk] at this)
      rw [if_pos hk, Option.some.injEq]
      constructor
      · rintro (h | h)
        · rw [← h]
        · exact absurd h hnot
      · intro h; exact .inl (by rw [← h, hk])
    · rw [if_neg hk, ← ih hr.2]
      constructor
      · rintro (h | h)
        · exact absurd (congrArg Prod.fst h) hk
        · exact h
      · exact .inr

private theorem eq_of_mem_iff {l₁ l₂ : List (String × α)} (h₁ : l₁.Pairwise (fun a b => a.1 < b.1))
    (h₂ : l₂.Pairwise (fun a b => a.1 < b.1)) (h : ∀ e, e ∈ l₁ ↔ e ∈ l₂) : l₁ = l₂ := by
  induction l₁ generalizing l₂ with
  | nil =>
    cases l₂ with
    | nil => rfl
    | cons e rest => exact absurd ((h e).2 (List.mem_cons_self ..)) (List.not_mem_nil)
  | cons a as ih =>
    cases l₂ with
    | nil => exact absurd ((h a).1 (List.mem_cons_self ..)) (List.not_mem_nil)
    | cons b bs =>
      have ha := List.pairwise_cons.1 h₁
      have hb := List.pairwise_cons.1 h₂
      have hab : a = b := by
        rcases List.mem_cons.1 ((h a).1 (List.mem_cons_self ..)) with e | hm
        · exact e
        · rcases List.mem_cons.1 ((h b).2 (List.mem_cons_self ..)) with e | hm'
          · exact e.symm
          · exact absurd (ha.1 _ hm') (String.lt_asymm (hb.1 _ hm))
      subst hab
      rw [ih ha.2 hb.2 fun e => ?_]
      constructor
      · intro hm
        rcases List.mem_cons.1 ((h e).1 (List.mem_cons_of_mem _ hm)) with rfl | hm'
        · exact absurd (ha.1 _ hm) (String.lt_irrefl _)
        · exact hm'
      · intro hm
        rcases List.mem_cons.1 ((h e).2 (List.mem_cons_of_mem _ hm)) with rfl | hm'
        · exact absurd (hb.1 _ hm) (String.lt_irrefl _)
        · exact hm'

/-- Maps that answer every look-up alike are equal. -/
theorem ext_get? {m₁ m₂ : KeyMap α} (h : ∀ key, m₁.get? key = m₂.get? key) : m₁ = m₂ := by
  have hl : m₁.toList = m₂.toList :=
    eq_of_mem_iff m₁.sorted m₂.sorted fun e => by
      rw [show e = (e.1, e.2) from rfl, mem_toList_iff, mem_toList_iff, h]
  cases m₁; cases m₂; cases hl; rfl

end KeyMap

end RoutedCache

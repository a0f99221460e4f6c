import RoutedCache.Key
import RoutedCache.KeyMap

/-!
# Runs of keys and views of maps

The keys that start with a text stand next to each other in the order of keys, from the first key that is not
below the text on (`filter_startsWith`).  A view of a map reads each of its values on its own and leaves out
those that cannot be read; it is known by its look-ups (`KeyMap.get?_collect`).
-/

namespace RoutedCache

universe u v

private theorem not_lt_of_prefix {start l : List Char} (h : start <+: l) : ¬l < start := by
  obtain ⟨rest, rfl⟩ := h
  induction start with
  | nil => exact List.not_lt_nil _
  | cons c start ih =>
    intro hlt
    rw [List.cons_append, List.cons_lt_cons_iff] at hlt
    rcases hlt with hc | ⟨-, hlt⟩
    · exact Char.lt_irrefl c hc
    · exact ih hlt

/-- What stands between a text and one of its continuations starts with the text. -/
private theorem prefix_of_between {start a b : List Char} (h : start <+: b) (hs : ¬a < start) (hab : a < b) :
    start <+: a := by
  obtain ⟨rest, rfl⟩ := h
  induction start generalizing a with
  | nil => exact List.nil_prefix
  | cons c start ih =>
    cases a with
    | nil => exact absurd (List.nil_lt_cons c start) hs
    | cons x a =>
      rw [List.cons_append, List.cons_lt_cons_iff] at hab
      rw [List.cons_lt_cons_iff] at hs
      rcases hab with hx | ⟨rfl, hlt⟩
      · exact absurd (.inl hx) hs
      · exact List.cons_prefix_cons.2 ⟨rfl, ih (fun h => hs (.inr ⟨rfl, h⟩)) hlt⟩

theorem not_lt_of_startsWith {start text : String} (h : startsWith start text = true) : ¬text < start :=
  not_lt_of_prefix (List.isPrefixOf_iff_prefix.1 h)

theorem startsWith_of_between {start a b : String} (h : startsWith start b = true) (hs : ¬a < start)
    (hab : a < b) :
    startsWith start a = true :=
  List.isPrefixOf_iff_prefix.2 (prefix_of_between (List.isPrefixOf_iff_prefix.1 h) hs hab)

/-- Above a key that does not start with the text, no key does. -/
private theorem takeWhile_startsWith {α : Type u} {start : String} {l : List (String × α)}
    (h : l.Pairwise (fun a b => a.1 < b.1)) (hs : ∀ e ∈ l, ¬e.1 < start) :
    l.takeWhile (fun e => startsWith start e.1) = l.filter fun e => startsWith start e.1 := by
  induction l with
  | nil => rfl
  | cons e rest ih =>
    have hr := List.pairwise_cons.1 h
    rw [List.takeWhile_cons, List.filter_cons]
    cases he : startsWith start e.1 with
    | true => rw [if_pos rfl, if_pos rfl, ih hr.2 fun x hx => hs x (List.mem_cons_of_mem _ hx)]
    | false =>
      rw [if_neg Bool.false_ne_true, if_neg Bool.false_ne_true]
      symm
      rw [List.filter_eq_nil_iff]
      intro x hx hstart
      have := startsWith_of_between hstart (hs e List.mem_cons_self) (hr.1 x hx)
      rw [he] at this
      cases this

/-- In a list of increasing keys, those that start with a text are one run, which begins at the first key that is
not below the text. -/
theorem filter_startsWith {α : Type u} {start : String} {l : List (String × α)}
    (h : l.Pairwise (fun a b => a.1 < b.1)) :
    (l.dropWhile fun e => decide (e.1 < start)).takeWhile (fun e => startsWith start e.1) =
      l.filter fun e => startsWith start e.1 := by
  induction l with
  | nil => rfl
  | cons e rest ih =>
    have hr := List.pairwise_cons.1 h
    by_cases he : e.1 < start
    · have hneg : ¬startsWith start e.1 = true := fun h => not_lt_of_startsWith h he
      rw [List.dropWhile_cons_of_pos (by simpa using he), List.filter_cons, if_neg hneg, ih hr.2]
    · rw [List.dropWhile_cons_of_neg (by simpa using he)]
      refine takeWhile_startsWith h fun x hx => ?_
      rcases List.mem_cons.1 hx with rfl | hx
      · exact he
      · exact fun hlt => he (String.lt_trans (hr.1 x hx) hlt)

namespace KeyMap

variable {α : Type u} {β : Type v}

theorem insert_erase (m : KeyMap α) (key : String) (value : α) :
    (m.erase key).insert key value = m.insert key value := by
  refine ext_get? fun key' => ?_
  rw [get?_insert, get?_insert, get?_erase]
  split <;> rfl

theorem erase_erase (m : KeyMap α) (key : String) : (m.erase key).erase key = m.erase key := by
  refine ext_get? fun key' => ?_
  rw [get?_erase, get?_erase]
  split <;> rfl

/-- The values that can be read, under their keys. -/
def collect (f : α → Option β) (m : KeyMap α) : KeyMap β where
  toList := m.toList.filterMap fun e => (f e.2).map (e.1, ·)
  sorted := by
    refine List.Pairwise.filterMap _ (fun a b hab x hx y hy => ?_) m.sorted
    obtain ⟨_, -, rfl⟩ := Option.map_eq_some_iff.1 hx
    obtain ⟨_, -, rfl⟩ := Option.map_eq_some_iff.1 hy
    exact hab

/-- A value is read if the look-up finds it and it can be read. -/
@[simp] theorem get?_collect (f : α → Option β) (m : KeyMap α) (key : String) :
    (m.collect f).get? key = (m.get? key).bind f := by
  apply Option.ext
  intro value
  rw [← mem_toList_iff, Option.bind_eq_some_iff]
  simp only [collect, List.mem_filterMap, Option.map_eq_some_iff, Prod.mk.injEq, Prod.exists]
  constructor
  · rintro ⟨key', a, hmem, value', hf, rfl, rfl⟩
    exact ⟨a, mem_toList_iff.1 hmem, hf⟩
  · rintro ⟨a, hget, hf⟩
    exact ⟨key, a, mem_toList_iff.2 hget, value, hf, rfl, rfl⟩

end KeyMap

end RoutedCache

import Mathlib.Data.List.DropRight
import RoutedCache.MountTable

/-!
# Spellings of a key

A key that is stored has no slash at its ends (`Unslashed`), and it is stored for exactly those texts that spell it,
with any number of slashes at each end (`normalizeKey_eq_ok_iff`).  A stored key starts with its leading segment
(`startsWith_leadingSegment`), so that a listing by the path of its mount reaches it.
-/

namespace RoutedCache

/-- No slash stands at an end of the text. -/
structure Unslashed (text : String) : Prop where
  head : text.toList.head? ≠ some '/'
  last : text.toList.getLast? ≠ some '/'

/-- The text differs from the key by slashes at its ends only. -/
def Spells (text key : String) : Prop :=
  ∃ before after, text.toList = List.replicate before '/' ++ key.toList ++ List.replicate after '/'

private theorem toList_trimSlashes (text : String) : (trimSlashes text).toList =
    (text.toList.dropWhile fun c => decide (c = '/')).rdropWhile fun c => decide (c = '/') :=
  String.toList_ofList

private theorem slashes_append_dropWhile (l : List Char) :
    ∃ n, l = List.replicate n '/' ++ l.dropWhile fun c => decide (c = '/') := by
  refine ⟨(l.takeWhile fun c => decide (c = '/')).length, ?_⟩
  have hall : l.takeWhile (fun c => decide (c = '/')) =
      List.replicate (l.takeWhile fun c => decide (c = '/')).length '/' := by
    rw [List.eq_replicate_iff]
    exact ⟨rfl, fun c hc => by simpa using List.mem_takeWhile_imp hc⟩
  rw [← hall, List.takeWhile_append_dropWhile]

private theorem rdropWhile_append_slashes (l : List Char) :
    ∃ n, l = (l.rdropWhile fun c => decide (c = '/')) ++ List.replicate n '/' := by
  obtain ⟨n, hn⟩ := slashes_append_dropWhile l.reverse
  refine ⟨n, ?_⟩
  have hback := congrArg List.reverse hn
  rwa [List.reverse_reverse, List.reverse_append, List.reverse_replicate] at hback

private theorem dropWhile_of_head {l : List Char} (h : l.head? ≠ some '/') :
    l.dropWhile (fun c => decide (c = '/')) = l := by
  cases l with
  | nil => rfl
  | cons c l =>
    have hc : c ≠ '/' := fun heq => h (by rw [heq]; rfl)
    rw [List.dropWhile_cons_of_neg (by simpa using hc)]

private theorem rdropWhile_of_last {l : List Char} (h : l.getLast? ≠ some '/') :
    l.rdropWhile (fun c => decide (c = '/')) = l := by
  unfold List.rdropWhile
  rw [dropWhile_of_head (by rwa [List.head?_reverse]), List.reverse_reverse]

theorem trimSlashes_of_unslashed {key : String} (h : Unslashed key) : trimSlashes key = key := by
  rw [← String.toList_inj, toList_trimSlashes, dropWhile_of_head h.head, rdropWhile_of_last h.last]

/-- Slashes at the ends of a text do not count. -/
theorem trimSlashes_of_spells {text key : String} (h : Spells text key) (hk : Unslashed key) :
    trimSlashes text = key := by
  obtain ⟨before, after, htext⟩ := h
  have hdrop (n : Nat) (l : List Char) : (List.replicate n '/' ++ l).dropWhile (fun c => decide (c = '/')) =
      l.dropWhile fun c => decide (c = '/') := by
    induction n with
    | zero => rfl
    | succ n ih => rw [List.replicate_succ, List.cons_append, List.dropWhile_cons_of_pos (by simp), ih]
  have hrdrop (n : Nat) (l : List Char) : (l ++ List.replicate n '/').rdropWhile (fun c => decide (c = '/')) =
      l.rdropWhile fun c => decide (c = '/') := by
    unfold List.rdropWhile
    rw [List.reverse_append, List.reverse_replicate, hdrop]
  rw [← String.toList_inj, toList_trimSlashes, htext, List.append_assoc, hdrop]
  by_cases hkey : key.toList = []
  · have hnone := hdrop after []
    rw [List.append_nil] at hnone
    rw [hkey, List.nil_append, hnone]
    rfl
  · rw [dropWhile_of_head, hrdrop, rdropWhile_of_last hk.last]
    rw [List.head?_append_of_ne_nil _ hkey]
    exact hk.head

theorem spells_trimSlashes (text : String) : Spells text (trimSlashes text) := by
  obtain ⟨before, hbefore⟩ := slashes_append_dropWhile text.toList
  obtain ⟨after, hafter⟩ := rdropWhile_append_slashes (text.toList.dropWhile fun c => decide (c = '/'))
  refine ⟨before, after, ?_⟩
  rw [toList_trimSlashes, List.append_assoc, ← hafter]
  exact hbefore

private theorem head?_dropWhile (l : List Char) : (l.dropWhile fun c => decide (c = '/')).head? ≠ some '/' := by
  intro h
  have hnot := List.head?_dropWhile_not (fun c => decide (c = '/')) l
  rw [h] at hnot
  simp at hnot

theorem unslashed_trimSlashes (text : String) : Unslashed (trimSlashes text) := by
  have hlast : (trimSlashes text).toList.getLast? ≠ some '/' := by
    rw [toList_trimSlashes, List.rdropWhile, List.getLast?_reverse]
    exact head?_dropWhile _
  refine ⟨fun hhead => ?_, hlast⟩
  -- What is left at the front is the front of the text without the slashes there.
  obtain ⟨rest, hrest⟩ : (trimSlashes text).toList <+: text.toList.dropWhile fun c => decide (c = '/') := by
    rw [toList_trimSlashes]
    exact List.rdropWhile_prefix _ _
  refine head?_dropWhile text.toList ?_
  rw [← hrest, List.head?_append, hhead, Option.some_or]

/-- A key is stored for the texts that spell it, if it is neither empty nor too long. -/
theorem normalizeKey_eq_ok_iff {text key : String} : normalizeKey text = .ok key ↔
    Spells text key ∧ Unslashed key ∧ key ≠ "" ∧ key.utf8ByteSize ≤ maxKeySize := by
  constructor
  · intro h
    simp only [normalizeKey] at h
    split at h
    next => cases h
    next hne =>
      split at h
      next => cases h
      next hlong =>
        cases h
        exact ⟨spells_trimSlashes text, unslashed_trimSlashes text, hne, Nat.le_of_not_lt hlong⟩
  · rintro ⟨hspells, hk, hne, hlong⟩
    simp only [normalizeKey, trimSlashes_of_spells hspells hk]
    rw [if_neg hne, if_neg (by omega)]

theorem leadingSegment_of_unslashed {key : String} (h : Unslashed key) :
    leadingSegment key = String.ofList (key.toList.takeWhile (· ≠ '/')) := by
  rw [leadingSegment, trimSlashes_of_unslashed h]

/-- A stored key starts with the path of the mount that owns it. -/
theorem startsWith_of_owns {path key : String} (hk : Unslashed key) (h : MountTable.owns path key = true) :
    startsWith path key = true := by
  have hpath : leadingSegment key = path := of_decide_eq_true h
  rw [← hpath, leadingSegment_of_unslashed hk, startsWith, String.toList_ofList]
  exact List.isPrefixOf_iff_prefix.2 (List.takeWhile_prefix _)

end RoutedCache

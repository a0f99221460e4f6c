import Mathlib.Data.List.TakeWhile
import RoutedCache.Proofs.Store.Frame

/-!
# Stores after deletions

`Store.erasing` is a store after deletions of some keys, be they refused or not.  A cell is gone if its key is one of
them and the store does not refuse its deletion (`Store.cell?_erasing`).  What a listing shows of the records of a
mount is the same before and after deletions of keys in mounts with smaller paths (`Store.list_erasing`), though it
goes by the start of the keys: a key that starts with the path of a mount is not in a mount before it
(`not_leadingSegment_lt`).
-/

namespace RoutedCache

/-- Texts without slashes that a key starts with are not trimmed. -/
private theorem prefix_trimSlashes {start key : String} (h : start.toList <+: key.toList)
    (hslash : '/' ∉ start.toList) : start.toList <+: (trimSlashes key).toList := by
  obtain ⟨rest, hrest⟩ := h
  have hkeep {l : List Char} (hl : '/' ∉ l) : l.dropWhile (· = '/') = l := by
    cases l with
    | nil => rfl
    | cons c l =>
      have hc : c ≠ '/' := fun heq => hl (by simp [heq])
      simp [hc]
  rw [trimSlashes, String.toList_ofList, ← hrest]
  cases hstart : start.toList with
  | nil => exact List.nil_prefix
  | cons c cs =>
    rw [hstart] at hslash
    have hc : c ≠ '/' := fun heq => hslash (by simp [heq])
    have hhead : (c :: cs ++ rest).dropWhile (· = '/') = c :: cs ++ rest := by simp [hc]
    rw [hhead, List.reverse_append, List.dropWhile_append]
    split
    next =>
      exact ⟨[], by rw [hkeep (fun hmem => hslash (List.mem_reverse.1 hmem)), List.reverse_reverse, List.append_nil]⟩
    next =>
      rw [List.reverse_append, List.reverse_reverse]
      exact List.prefix_append ..

/-- A key that starts with a text without slashes is in no mount with a smaller path. -/
theorem not_leadingSegment_lt {start key : String} (h : startsWith start key = true) (hslash : '/' ∉ start.toList) :
    ¬leadingSegment key < start := by
  refine not_lt_of_startsWith (List.isPrefixOf_iff_prefix.2 ?_)
  obtain ⟨rest, hrest⟩ := prefix_trimSlashes (List.isPrefixOf_iff_prefix.1 h) hslash
  have hall : ∀ c ∈ start.toList, decide (c ≠ '/') = true := by
    intro c hc
    have hne : c ≠ '/' := fun heq => hslash (heq ▸ hc)
    simpa using hne
  rw [leadingSegment, String.toList_ofList, ← hrest, List.takeWhile_append_of_pos hall]
  exact List.prefix_append ..

/-- A path with a slash owns no key. -/
theorem MountTable.owns_of_slash {path : String} (h : '/' ∈ path.toList) (key : String) : owns path key = false := by
  rw [owns, decide_eq_false_iff_not]
  rintro rfl
  rw [leadingSegment, String.toList_ofList] at h
  simpa using List.mem_takeWhile_imp h

namespace Store

/-- The store after deletions of the keys, one after the other. -/
def erasing (store : Store) (keys : List String) : Store :=
  keys.foldl (fun store key => (store.perform (.delete key)).2) store

@[simp] theorem erasing_nil (store : Store) : store.erasing [] = store := rfl

theorem erasing_cons (store : Store) (key : String) (keys : List String) :
    store.erasing (key :: keys) = (store.perform (.delete key)).2.erasing keys := rfl

theorem erasing_append (store : Store) (keys keys' : List String) :
    store.erasing (keys ++ keys') = (store.erasing keys).erasing keys' := List.foldl_append

/-- Whether a store refuses a deletion hangs on what it is, not on what it keeps. -/
private theorem reply_delete (store : Store) (key : String) :
    (store.bare.perform (.delete key)).1 = (store.perform (.delete key)).1 := by
  cases store with
  | memory => rfl
  | document => rfl
  | faulty faults entries =>
    simp only [bare, perform]
    split <;> rfl

theorem reply_delete_of_bare {store store' : Store} (h : store'.bare = store.bare) (key : String) :
    (store'.perform (.delete key)).1 = (store.perform (.delete key)).1 := by
  rw [← reply_delete, h, reply_delete]

/-- A deletion is refused after a deletion if it is refused before it. -/
theorem reply_delete_perform (store : Store) (key key' : String) :
    ((store.perform (.delete key)).2.perform (.delete key')).1 = (store.perform (.delete key')).1 :=
  reply_delete_of_bare (bare_perform ..) key'

theorem cell?_erasing (store : Store) (keys : List String) (key : String) :
    (store.erasing keys).cell? key =
      if key ∈ keys ∧ (store.perform (.delete key)).1 = .done then none else store.cell? key := by
  induction keys generalizing store with
  | nil => simp
  | cons first rest ih =>
    rw [erasing_cons, ih, reply_delete_perform]
    rcases store.perform_delete first with ⟨hdone, hcells⟩ | ⟨fault, hfault⟩
    · rw [hcells]
      by_cases heq : key = first
      · subst heq
        simp [hdone]
      · simp [heq]
    · rw [hfault]
      by_cases heq : key = first
      · subst heq
        simp [hfault]
      · simp [heq]

/-! ### Listings -/

/-- The records of a mount in a listing. -/
def owned (path : String) (entries : List KeyRecord) : List KeyRecord :=
  entries.filter fun entry => MountTable.owns path entry.key

private theorem owned_erase {path key : String} (hk : MountTable.owns path key = false) (entries : KeyMap Record)
    (p : String × Record → Bool) :
    owned path (((entries.erase key).toList.filter p).map fun e => ⟨e.1, e.2⟩) =
      owned path ((entries.toList.filter p).map fun e => ⟨e.1, e.2⟩) := by
  have hkept (e : String × Record) (he : MountTable.owns path e.1 = true) : e.1 ≠ key := by
    intro heq
    rw [heq, hk] at he
    cases he
  rw [owned, owned, List.filter_map, List.filter_map, KeyMap.erase, List.filter_filter, List.filter_filter,
    List.filter_filter]
  refine congrArg (List.map _) (List.filter_congr fun e _ => ?_)
  rw [Function.comp_apply]
  cases howns : MountTable.owns path e.1 with
  | false => simp
  | true => simp [hkept e howns]

/-- What a listing shows of the records of a mount is the same before a deletion of a key in a mount with a smaller
path. -/
private theorem list_delete {store : Store} {path key : String} (hk : leadingSegment key < path)
    {shown : List KeyRecord} (hl : ((store.perform (.delete key)).2.perform (.list path)).1 = .listed shown) :
    ∃ before, (store.perform (.list path)).1 = .listed before ∧ owned path before = owned path shown := by
  have hnot : MountTable.owns path key = false := by
    rw [MountTable.owns, decide_eq_false_iff_not]
    intro heq
    rw [heq] at hk
    exact String.lt_irrefl path hk
  cases store with
  | memory entries =>
    simp only [perform, performEntries, Reply.listed.injEq] at hl ⊢
    refine ⟨_, rfl, ?_⟩
    rw [← hl]
    exact (owned_erase hnot entries _).symm
  | document file collection opened documents =>
    simp only [perform, performDocuments, Reply.listed.injEq] at hl ⊢
    refine ⟨_, rfl, ?_⟩
    rw [← hl]
    by_cases hslash : '/' ∈ path.toList
    · have hnone (entries : List KeyRecord) : owned path entries = [] := by
        simp [owned, MountTable.owns_of_slash hslash]
      rw [hnone, hnone]
    · have hstart : startsWith path key = false := by
        rw [Bool.eq_false_iff]
        exact fun h => not_leadingSegment_lt h hslash hk
      have hrun : Documents.run (documents.erase key) path = documents.run path := by
        rw [Documents.run_eq, Documents.run_eq, KeyMap.erase, List.filter_filter]
        refine List.filter_congr fun e _ => ?_
        by_cases heq : e.1 = key
        · simp [heq, hstart]
        · simp [heq]
      rw [Documents.list, Documents.list, hrun]
  | faulty faults entries =>
    cases hrefused : faults.refusal? (.delete key) with
    | some fault =>
      have hsame : ((faulty faults entries).perform (.delete key)).2 = faulty faults entries := by
        simp only [perform, hrefused]
      rw [hsame] at hl
      exact ⟨shown, hl, rfl⟩
    | none =>
      have herased : ((faulty faults entries).perform (.delete key)).2 = faulty faults (entries.erase key) := by
        simp only [perform, hrefused, Faults.widen, performEntries]
      rw [herased] at hl
      simp only [perform] at hl ⊢
      split at hl
      next => cases hl
      next =>
        simp only [Faults.widen, performEntries, Reply.listed.injEq] at hl ⊢
        refine ⟨_, rfl, ?_⟩
        rw [← hl]
        exact (owned_erase hnot entries _).symm

theorem list_erasing {store : Store} {path : String} {keys : List String}
    (hk : ∀ key ∈ keys, leadingSegment key < path) {shown : List KeyRecord}
    (hl : ((store.erasing keys).perform (.list path)).1 = .listed shown) :
    ∃ before, (store.perform (.list path)).1 = .listed before ∧ owned path before = owned path shown := by
  induction keys generalizing store with
  | nil => exact ⟨shown, hl, rfl⟩
  | cons key keys ih =>
    obtain ⟨middle, hmiddle, heq⟩ := ih (fun other hother => hk other (List.mem_cons_of_mem _ hother)) hl
    obtain ⟨before, hbefore, heq'⟩ := list_delete (hk key List.mem_cons_self) hmiddle
    exact ⟨before, hbefore, heq'.trans heq⟩

end Store

end RoutedCache

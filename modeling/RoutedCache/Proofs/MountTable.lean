import Mathlib.Data.List.Nodup
import RoutedCache.MountTable
import RoutedCache.Proofs.Text.Utf8

/-!
# Routing

Bindings can be mounted side by side if their trimmed paths are single parts and differ from each other
(`MountTable.WellMounted`).  The table of such bindings exists and serves each key by the binding whose path is the
leading segment of the key, which is the only one that owns the key (`MountTable.Serves`); any other list of
bindings is refused at the first binding that cannot stand after those before it (`MountTable.Breaks`).  None of
this depends on the order of the bindings (`MountTable.routes_by_segment`).
-/

namespace RoutedCache.MountTable

variable {σ : Type}

/-- The path is a single part. -/
def Mountable (path : String) : Prop := trimSlashes path ≠ "" ∧ '/' ∉ (trimSlashes path).toList

instance : DecidablePred Mountable := fun _ => inferInstanceAs (Decidable (_ ∧ _))

/-- The paths of the bindings as a table knows them. -/
def trimmed (bindings : List (String × σ)) : List String := bindings.map fun binding => trimSlashes binding.1

/-- The bindings can be mounted side by side. -/
structure WellMounted (bindings : List (String × σ)) : Prop where
  mountable : ∀ binding ∈ bindings, Mountable binding.1
  distinct : (trimmed bindings).Nodup

/-- Why a path cannot be mounted after the bindings before it. -/
inductive Breaks (before : List (String × σ)) (path : String) : CacheError → Prop
  | invalid (h : ¬Mountable path) : Breaks before path (.invalidMount path)
  | duplicate (hm : Mountable path) (h : trimSlashes path ∈ trimmed before) :
      Breaks before path (.duplicateMount (trimSlashes path))

/-- The table answers as its bindings say. -/
structure Serves (table : MountTable σ) (bindings : List (String × σ)) : Prop where
  mounts : table.mounts.Perm (bindings.map fun binding => (trimSlashes binding.1, binding.2))
  increasing : table.mounts.Pairwise fun mount other => utf8 mount.1 < utf8 other.1
  /-- A key is served by the store that is bound to its leading segment. -/
  resolve : ∀ key path store, table.resolve key = .ok (path, store) ↔
    leadingSegment key = path ∧ ∃ binding ∈ bindings, trimSlashes binding.1 = path ∧ binding.2 = store
  /-- The mount that serves a key is the one that owns it. -/
  owner : ∀ key mount, table.resolve key = .ok mount ↔ mount ∈ table.mounts ∧ owns mount.1 key = true
  single : ∀ key, ∀ mount ∈ table.mounts, ∀ other ∈ table.mounts, owns mount.1 key = true →
    owns other.1 key = true → mount = other
  /-- A key that no mount owns is refused. -/
  unserved : ∀ key error, table.resolve key = .error error ↔
    error = .noMount key ∧ leadingSegment key ∉ trimmed bindings
  unowned : ∀ key, leadingSegment key ∉ trimmed bindings → ∀ mount ∈ table.mounts, owns mount.1 key = false

variable {table : MountTable σ} {bindings before : List (String × σ)} {path : String} {store : σ}

/-! ### One more binding -/

theorem mountPath_of_mountable (h : Mountable path) : mountPath path = .ok (trimSlashes path) := by
  unfold mountPath
  have hnot : ¬(trimSlashes path = "" ∨ '/' ∈ (trimSlashes path).toList) := by
    rintro (hempty | hslash)
    · exact h.1 hempty
    · exact h.2 hslash
  rw [if_neg hnot]

theorem mountPath_of_not_mountable (h : ¬Mountable path) : mountPath path = .error (.invalidMount path) := by
  unfold mountPath
  have hor : trimSlashes path = "" ∨ '/' ∈ (trimSlashes path).toList := by
    by_cases hempty : trimSlashes path = ""
    · exact .inl hempty
    · exact .inr (Decidable.byContradiction fun hslash => h ⟨hempty, hslash⟩)
  rw [if_pos hor]

/-- The table holds the bindings, none of which hides another. -/
structure Holds (table : MountTable σ) (bindings : List (String × σ)) : Prop where
  wellMounted : WellMounted bindings
  get? : ∀ path store, table.byPath.get? path = some store ↔
    ∃ binding ∈ bindings, trimSlashes binding.1 = path ∧ binding.2 = store

theorem holds_empty : Holds (⟨.empty⟩ : MountTable σ) [] := by
  constructor
  · exact ⟨fun binding h => absurd h List.not_mem_nil, List.nodup_nil⟩
  · intro path store
    simp

theorem Holds.contains_iff (h : Holds table before) (path : String) :
    table.byPath.contains path = true ↔ path ∈ trimmed before := by
  unfold KeyMap.contains trimmed
  rw [Option.isSome_iff_exists, List.mem_map]
  constructor
  · rintro ⟨store, hget⟩
    obtain ⟨binding, hmem, hpath, -⟩ := (h.get? path store).1 hget
    exact ⟨binding, hmem, hpath⟩
  · rintro ⟨binding, hmem, hpath⟩
    exact ⟨binding.2, (h.get? path binding.2).2 ⟨binding, hmem, hpath, rfl⟩⟩

theorem WellMounted.snoc (h : WellMounted before) (hm : Mountable path) (hnew : trimSlashes path ∉ trimmed before)
    (store : σ) : WellMounted (before ++ [(path, store)]) := by
  constructor
  · intro binding hmem
    rcases List.mem_append.1 hmem with hmem | hmem
    · exact h.mountable binding hmem
    · rw [List.mem_singleton.1 hmem]
      exact hm
  · unfold trimmed
    rw [List.map_append, List.nodup_append]
    refine ⟨h.distinct, List.nodup_singleton _, ?_⟩
    intro p hp q hq heq
    rw [heq, List.mem_singleton.1 hq] at hp
    exact hnew hp

/-- A binding that breaks the ones before it cannot be mounted with them. -/
theorem Breaks.not_wellMounted {error : CacheError} (h : Breaks before path error) (after : List (String × σ)) :
    ¬WellMounted (before ++ (path, store) :: after) := by
  intro hw
  cases h with
  | invalid hnot => exact hnot (hw.mountable (path, store) (by simp))
  | duplicate _ hmem =>
    have hdistinct := hw.distinct
    unfold trimmed at hdistinct
    rw [List.map_append, List.nodup_append] at hdistinct
    exact hdistinct.2.2 _ hmem _ (by simp) rfl

theorem Breaks.eq {error error' : CacheError} (h : Breaks before path error) (h' : Breaks before path error') :
    error = error' := by
  cases h with
  | invalid hnot =>
    cases h' with
    | invalid => rfl
    | duplicate hm => exact absurd hm hnot
  | duplicate hm =>
    cases h' with
    | invalid hnot => exact absurd hm hnot
    | duplicate => rfl

theorem Holds.insert (h : Holds table before) (hm : Mountable path) (hnew : trimSlashes path ∉ trimmed before)
    (store : σ) : Holds ⟨table.byPath.insert (trimSlashes path) store⟩ (before ++ [(path, store)]) := by
  refine ⟨h.wellMounted.snoc hm hnew store, ?_⟩
  intro p s
  rw [KeyMap.get?_insert]
  by_cases hp : p = trimSlashes path
  · rw [if_pos hp]
    constructor
    · intro hs
      cases hs
      exact ⟨(path, store), by simp, hp.symm, rfl⟩
    · rintro ⟨binding, hmem, hpath, rfl⟩
      rcases List.mem_append.1 hmem with hmem | hmem
      · have hold : trimSlashes path ∈ trimmed before := List.mem_map.2 ⟨binding, hmem, hpath.trans hp⟩
        exact absurd hold hnew
      · rw [List.mem_singleton.1 hmem]
  · rw [if_neg hp, h.get?]
    constructor
    · rintro ⟨binding, hmem, hboth⟩
      exact ⟨binding, List.mem_append_left _ hmem, hboth⟩
    · rintro ⟨binding, hmem, hpath, hstore⟩
      rcases List.mem_append.1 hmem with hmem | hmem
      · exact ⟨binding, hmem, hpath, hstore⟩
      · rw [List.mem_singleton.1 hmem] at hpath
        exact absurd hpath.symm hp

/-- A binding is added to those before it or refused for what it breaks. -/
theorem Holds.add (h : Holds table before) (path : String) (store : σ) :
    (∃ table', table.add path store = .ok table' ∧ Holds table' (before ++ [(path, store)])) ∨
      ∃ error, table.add path store = .error error ∧ Breaks before path error := by
  by_cases hm : Mountable path
  · have hadd : table.add path store = if table.byPath.contains (trimSlashes path) then
        .error (.duplicateMount (trimSlashes path)) else .ok ⟨table.byPath.insert (trimSlashes path) store⟩ := by
      unfold MountTable.add
      rw [mountPath_of_mountable hm]
      rfl
    by_cases hnew : trimSlashes path ∈ trimmed before
    · right
      rw [hadd, if_pos ((h.contains_iff _).2 hnew)]
      exact ⟨_, rfl, .duplicate hm hnew⟩
    · left
      rw [hadd, if_neg fun hc => hnew ((h.contains_iff _).1 hc)]
      exact ⟨_, rfl, h.insert hm hnew store⟩
  · right
    have hadd : table.add path store = .error (.invalidMount path) := by
      unfold MountTable.add
      rw [mountPath_of_not_mountable hm]
      rfl
    exact ⟨_, hadd, .invalid hm⟩

/-! ### All bindings -/

/-- The construction goes on with the next binding. -/
theorem ofBindings_append_cons (h : ofBindings before = .ok table) (path : String) (store : σ)
    (after : List (String × σ)) : ofBindings (before ++ (path, store) :: after) =
      (table.add path store).bind fun table =>
        after.foldlM (fun table binding => table.add binding.1 binding.2) table := by
  unfold ofBindings at h ⊢
  rw [List.foldlM_append, h]
  rfl

/-- The construction holds the bindings so far at every moment, and stops at the first that breaks them. -/
theorem ofBindings_cases (bindings : List (String × σ)) :
    (∃ table, ofBindings bindings = .ok table ∧ Holds table bindings) ∨
      ∃ error before path store after, ofBindings bindings = .error error ∧
        bindings = before ++ (path, store) :: after ∧ WellMounted before ∧ Breaks before path error := by
  suffices hrun : ∀ (rest before : List (String × σ)) (table : MountTable σ), ofBindings before = .ok table →
      Holds table before → (∃ table, ofBindings (before ++ rest) = .ok table ∧ Holds table (before ++ rest)) ∨
        ∃ error before' path store after, ofBindings (before ++ rest) = .error error ∧
          before ++ rest = before' ++ (path, store) :: after ∧ WellMounted before' ∧ Breaks before' path error from
    hrun bindings [] ⟨.empty⟩ rfl holds_empty
  intro rest
  induction rest with
  | nil =>
    intro before table hof hholds
    left
    rw [List.append_nil]
    exact ⟨table, hof, hholds⟩
  | cons binding rest ih =>
    intro before table hof hholds
    obtain ⟨path, store⟩ := binding
    rcases hholds.add path store with ⟨table', hadd, hholds'⟩ | ⟨error, hadd, hbreaks⟩
    · have hnext : ofBindings (before ++ [(path, store)]) = .ok table' := by
        rw [ofBindings_append_cons hof, hadd]
        rfl
      have hsplit : before ++ (path, store) :: rest = (before ++ [(path, store)]) ++ rest := by simp
      rw [hsplit]
      exact ih _ table' hnext hholds'
    · right
      refine ⟨error, before, path, store, rest, ?_, rfl, hholds.wellMounted, hbreaks⟩
      rw [ofBindings_append_cons hof, hadd]
      rfl

theorem ofBindings_of_wellMounted (h : WellMounted bindings) :
    ∃ table, ofBindings bindings = .ok table ∧ Holds table bindings := by
  rcases ofBindings_cases bindings with hok | ⟨error, before, path, store, after, -, rfl, -, hbreaks⟩
  · exact hok
  · exact absurd h (hbreaks.not_wellMounted after)

theorem holds_of_ofBindings (h : ofBindings bindings = .ok table) : Holds table bindings := by
  rcases ofBindings_cases bindings with ⟨table', hok, hholds⟩ | ⟨error, _, _, _, _, herror, -⟩
  · rw [h] at hok
    cases hok
    exact hholds
  · rw [h] at herror
    cases herror

theorem ofBindings_eq_error_iff {error : CacheError} : ofBindings bindings = .error error ↔
    ∃ before path store after, bindings = before ++ (path, store) :: after ∧ WellMounted before ∧
      Breaks before path error := by
  constructor
  · intro h
    rcases ofBindings_cases bindings with ⟨table, hok, -⟩ | ⟨error', before, path, store, after, herror, hrest⟩
    · rw [h] at hok
      cases hok
    · rw [h] at herror
      cases herror
      exact ⟨before, path, store, after, hrest⟩
  · rintro ⟨before, path, store, after, rfl, hw, hbreaks⟩
    obtain ⟨table, hof, hholds⟩ := ofBindings_of_wellMounted hw
    rw [ofBindings_append_cons hof]
    rcases hholds.add path store with ⟨table', -, hholds'⟩ | ⟨error', hadd, hbreaks'⟩
    · exact absurd hholds'.wellMounted (hbreaks.not_wellMounted [])
    · rw [hadd, hbreaks.eq hbreaks']
      rfl

/-! ### Answers of a table -/

theorem mem_mounts_iff {mount : String × σ} :
    mount ∈ table.mounts ↔ table.byPath.get? mount.1 = some mount.2 := KeyMap.mem_toList_iff

theorem resolve_of_some {key : String} (h : table.byPath.get? (leadingSegment key) = some store) :
    table.resolve key = .ok (leadingSegment key, store) := by
  simp only [MountTable.resolve, h]

theorem resolve_of_none {key : String} (h : table.byPath.get? (leadingSegment key) = none) :
    table.resolve key = .error (.noMount key) := by
  simp only [MountTable.resolve, h]

theorem mem_paths_iff : path ∈ table.paths ↔ ∃ store, table.byPath.get? path = some store := by
  unfold paths KeyMap.keys
  rw [List.mem_map]
  constructor
  · rintro ⟨⟨path', store⟩, hmem, rfl⟩
    exact ⟨store, KeyMap.mem_toList_iff.1 hmem⟩
  · rintro ⟨store, hget⟩
    exact ⟨(path, store), KeyMap.mem_toList_iff.2 hget, rfl⟩

theorem resolve_cases (table : MountTable σ) (key : String) :
    (table.resolve key = .error (.noMount key) ∧ leadingSegment key ∉ table.paths) ∨
      ∃ store, table.resolve key = .ok (leadingSegment key, store) ∧ leadingSegment key ∈ table.paths := by
  cases hget : table.byPath.get? (leadingSegment key) with
  | none =>
    left
    refine ⟨resolve_of_none hget, ?_⟩
    rw [mem_paths_iff, hget]
    simp
  | some store =>
    right
    exact ⟨store, resolve_of_some hget, mem_paths_iff.2 ⟨store, hget⟩⟩

theorem resolve_eq_ok_iff {key : String} {mount : String × σ} :
    table.resolve key = .ok mount ↔ leadingSegment key = mount.1 ∧ mount ∈ table.mounts := by
  rw [mem_mounts_iff]
  cases hget : table.byPath.get? (leadingSegment key) with
  | none =>
    rw [resolve_of_none hget]
    constructor
    · intro h
      cases h
    · intro ⟨hsegment, hsome⟩
      rw [← hsegment, hget] at hsome
      cases hsome
  | some store =>
    rw [resolve_of_some hget]
    constructor
    · intro h
      have hmount : (leadingSegment key, store) = mount := Except.ok.inj h
      rw [← hmount]
      exact ⟨rfl, hget⟩
    · intro ⟨hsegment, hsome⟩
      rw [← hsegment, hget] at hsome
      rw [hsegment, Option.some.inj hsome]

theorem resolve_eq_error_iff {key : String} {error : CacheError} : table.resolve key = .error error ↔
    error = .noMount key ∧ table.byPath.get? (leadingSegment key) = none := by
  cases hget : table.byPath.get? (leadingSegment key) with
  | none =>
    rw [resolve_of_none hget]
    constructor
    · intro h
      exact ⟨(Except.error.inj h).symm, rfl⟩
    · intro ⟨herror, _⟩
      rw [herror]
  | some store =>
    rw [resolve_of_some hget]
    simp

theorem owns_iff {path key : String} : owns path key = true ↔ leadingSegment key = path := by
  simp [owns]

namespace Holds

private theorem mem_mounts_iff' (h : Holds table bindings) (mount : String × σ) : mount ∈ table.mounts ↔
    mount ∈ bindings.map fun binding => (trimSlashes binding.1, binding.2) := by
  rw [mem_mounts_iff, h.get?, List.mem_map]
  constructor
  · rintro ⟨binding, hmem, hpath, hstore⟩
    exact ⟨binding, hmem, by rw [hpath, hstore]⟩
  · rintro ⟨binding, hmem, rfl⟩
    exact ⟨binding, hmem, rfl, rfl⟩

theorem perm_mounts (h : Holds table bindings) :
    table.mounts.Perm (bindings.map fun binding => (trimSlashes binding.1, binding.2)) := by
  have hmounts : table.mounts.Nodup := by
    refine table.byPath.sorted.imp ?_
    rintro mount _ hlt rfl
    exact String.lt_irrefl _ hlt
  have hbindings : (bindings.map fun binding => (trimSlashes binding.1, binding.2)).Nodup := by
    have hdistinct := h.wellMounted.distinct
    unfold trimmed at hdistinct
    refine List.Nodup.of_map Prod.fst ?_
    rw [List.map_map]
    exact hdistinct
  exact (List.perm_ext_iff_of_nodup hmounts hbindings).2 h.mem_mounts_iff'

/-- A table that holds its bindings answers as they say. -/
theorem serves (h : Holds table bindings) : Serves table bindings where
  mounts := h.perm_mounts
  increasing := table.byPath.sorted.imp utf8_lt_iff.2
  resolve key path store := by
    rw [resolve_eq_ok_iff, mem_mounts_iff, h.get?]
  owner key mount := by
    rw [resolve_eq_ok_iff, owns_iff, and_comm]
  single key mount hmount other hother howns howns' := by
    -- Both are what the look-up of the leading segment finds.
    have hmount' := resolve_eq_ok_iff.2 ⟨owns_iff.1 howns, hmount⟩
    have hother' := resolve_eq_ok_iff.2 ⟨owns_iff.1 howns', hother⟩
    rw [hmount'] at hother'
    cases hother'
    rfl
  unserved key error := by
    rw [resolve_eq_error_iff, ← h.contains_iff, KeyMap.contains, Option.not_isSome_iff_eq_none]
  unowned key hnot mount hmount := by
    rw [← Bool.not_eq_true, owns_iff]
    intro heq
    refine hnot (heq ▸ ?_)
    rw [← h.contains_iff, KeyMap.contains, mem_mounts_iff.1 hmount]
    rfl

end Holds

/-! ### The order of the bindings -/

theorem WellMounted.perm {others : List (String × σ)} (h : WellMounted bindings) (hp : others.Perm bindings) :
    WellMounted others := by
  constructor
  · intro binding hmem
    exact h.mountable binding (hp.mem_iff.1 hmem)
  · exact (hp.map _).nodup_iff.2 h.distinct

theorem Holds.eq_of_perm {table' : MountTable σ} {others : List (String × σ)} (h : Holds table bindings)
    (h' : Holds table' others) (hp : others.Perm bindings) : table' = table := by
  have hget (path : String) : table'.byPath.get? path = table.byPath.get? path := by
    apply Option.ext
    intro store
    rw [h.get?, h'.get?]
    constructor
    · rintro ⟨binding, hmem, hboth⟩
      exact ⟨binding, hp.mem_iff.1 hmem, hboth⟩
    · rintro ⟨binding, hmem, hboth⟩
      exact ⟨binding, hp.mem_iff.2 hmem, hboth⟩
  have hbyPath := KeyMap.ext_get? hget
  cases table
  cases table'
  cases hbyPath
  rfl

theorem ofBindings_perm {others : List (String × σ)} (hp : others.Perm bindings)
    (h : ofBindings bindings = .ok table) : ofBindings others = .ok table := by
  have hholds := holds_of_ofBindings h
  obtain ⟨table', hof, hholds'⟩ := ofBindings_of_wellMounted (hholds.wellMounted.perm hp)
  rw [hof, hholds.eq_of_perm hholds' hp]

/-- Bindings are mounted if they can stand side by side, and refused at the first one that cannot; a key is served
by the one mount whose path is its leading segment, or by none; and the order of the bindings does not matter. -/
theorem routes_by_segment (bindings : List (String × σ)) :
    ((∃ table, ofBindings bindings = .ok table) ↔ WellMounted bindings) ∧
    (∀ error, ofBindings bindings = .error error ↔ ∃ before path store after,
      bindings = before ++ (path, store) :: after ∧ WellMounted before ∧ Breaks before path error) ∧
    (∀ table, ofBindings bindings = .ok table → Serves table bindings) ∧
    ∀ others : List (String × σ), others.Perm bindings →
      ∀ table, ofBindings others = .ok table ↔ ofBindings bindings = .ok table := by
  refine ⟨⟨?_, ?_⟩, fun error => ofBindings_eq_error_iff, fun table h => (holds_of_ofBindings h).serves, ?_⟩
  · rintro ⟨table, h⟩
    exact (holds_of_ofBindings h).wellMounted
  · intro h
    obtain ⟨table, hof, -⟩ := ofBindings_of_wellMounted h
    exact ⟨table, hof⟩
  · intro others hp table
    constructor
    · exact ofBindings_perm hp.symm
    · exact ofBindings_perm hp

/-- A path that another one starts with does not take its keys. -/
theorem routes_by_segment_nested :
    let bindings : List (String × Nat) := [("/memory/", 1), ("mem", 2)]
    let others : List (String × Nat) := [("mem", 2), ("/memory/", 1)]
    WellMounted bindings ∧ others.Perm bindings ∧
      (∃ table, ofBindings bindings = .ok table ∧ ofBindings others = .ok table ∧
        table.resolve "/memory/x" = .ok ("memory", 1) ∧ table.resolve "mem/x" = .ok ("mem", 2) ∧
        table.resolve "memo/x" = .error (.noMount "memo/x")) ∧
      ofBindings [("a", 1), ("/a/", 2), ("b/c", 3)] = .error (.duplicateMount "a") := by
  intro bindings others
  have hwell : WellMounted bindings := ⟨by decide +kernel, by decide +kernel⟩
  have hperm : others.Perm bindings := List.Perm.swap ..
  obtain ⟨hok, -, hserves, hothers⟩ := routes_by_segment bindings
  obtain ⟨table, hof⟩ := hok.2 hwell
  have hserve := hserves table hof
  refine ⟨hwell, hperm, ⟨table, hof, (hothers others hperm table).2 hof, ?_, ?_, ?_⟩, ?_⟩
  · exact (hserve.resolve _ _ _).2 ⟨by decide +kernel, ("/memory/", 1), by decide, by decide +kernel, rfl⟩
  · exact (hserve.resolve _ _ _).2 ⟨by decide +kernel, ("mem", 2), by decide, by decide +kernel, rfl⟩
  · exact (hserve.unserved _ _).2 ⟨rfl, by decide +kernel⟩
  · have hfirst : WellMounted [("a", 1)] := ⟨by decide +kernel, by decide +kernel⟩
    have hbreaks : Breaks [("a", 1)] "/a/" (.duplicateMount "a") := by
      have htrimmed : trimSlashes "/a/" = "a" := by decide +kernel
      have h : Breaks [("a", 1)] "/a/" (.duplicateMount (trimSlashes "/a/")) :=
        .duplicate (by decide +kernel) (by decide +kernel)
      rwa [htrimmed] at h
    exact ((routes_by_segment _).2.1 _).2 ⟨[("a", 1)], "/a/", 2, [("b/c", 3)], rfl, hfirst, hbreaks⟩

end RoutedCache.MountTable

import RoutedCache.Error
import RoutedCache.KeyMap

/-!
# Mount tables

A mount table binds paths to stores.  A path is a single non-empty part, and a key is served by the mount
whose path is its leading segment, so that no key is served by two mounts.
-/

namespace RoutedCache

structure MountTable (σ : Type) where
  byPath : KeyMap σ

namespace MountTable

variable {σ : Type}

def mountPath (path : String) : Except CacheError String :=
  let trimmed := trimSlashes path
  if trimmed = "" ∨ '/' ∈ trimmed.toList then .error (.invalidMount path) else .ok trimmed

/-- One more mount. -/
def add (table : MountTable σ) (path : String) (store : σ) : Except CacheError (MountTable σ) := do
  let path ← mountPath path
  if table.byPath.contains path then .error (.duplicateMount path)
  else .ok ⟨table.byPath.insert path store⟩

/-- The table of the bindings, or the error of the first one that cannot be added to those before it. -/
def ofBindings (bindings : List (String × σ)) : Except CacheError (MountTable σ) :=
  bindings.foldlM (fun table binding => table.add binding.1 binding.2) ⟨.empty⟩

/-- The mounts in byte order of their paths. -/
def mounts (table : MountTable σ) : List (String × σ) := table.byPath.toList

def paths (table : MountTable σ) : List String := table.byPath.keys

def resolve (table : MountTable σ) (key : String) : Except CacheError (String × σ) :=
  let segment := leadingSegment key
  match table.byPath.get? segment with
  | some store => .ok (segment, store)
  | none => .error (.noMount key)

/-- Whether the mount with this path serves the key. -/
def owns (path key : String) : Bool := leadingSegment key = path

/-- A mount with the kind of its store, as shown in messages. -/
def describe (path kind : String) : String :=
  "Mount \x7b path: " ++ quote path ++ ", store: " ++ quote kind ++ " \x7d"

end MountTable

end RoutedCache

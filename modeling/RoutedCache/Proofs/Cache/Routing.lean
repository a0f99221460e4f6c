import RoutedCache.Cache.Request

/-!
# Routes

A request that asks for a lock at all comes to one store, with one visit there (`Request.Routed`): a write with the
record it has made, a read or a delete with the stored form of its key.
-/

namespace RoutedCache

/-- What the route of a request consists of. -/
inductive Request.Routed (mounts : MountTable Nat) (clock : Clock) : Request → Nat → Visit → Prop
  | write {key data options entry path store} (hfresh : freshEntry clock.read? key data options = .ok entry)
      (hmount : mounts.resolve entry.key = .ok (path, store)) :
      Routed mounts clock (.write key data options) store (.put entry)
  | read {key stored path store} (hkey : normalizeKey key = .ok stored)
      (hmount : mounts.resolve stored = .ok (path, store)) : Routed mounts clock (.read key) store (.get stored)
  | delete {key stored path store} (hkey : normalizeKey key = .ok stored)
      (hmount : mounts.resolve stored = .ok (path, store)) :
        Routed mounts clock (.delete key) store (.delete stored)
  | calls {store left} : Routed mounts clock (.calls store left) store (.calls left [])
  | hold {store ms} : Routed mounts clock (.hold store ms) store (.hold ms)

variable {mounts : MountTable Nat} {clock : Clock} {request : Request} {store : Nat} {visit : Visit}

theorem MountTable.place_eq_ok {key stored : String} (h : mounts.place key = .ok (stored, store)) :
    normalizeKey key = .ok stored ∧ ∃ path, mounts.resolve stored = .ok (path, store) := by
  unfold place at h
  cases hkey : normalizeKey key with
  | error e =>
    rw [hkey] at h
    cases h
  | ok normal =>
    rw [hkey] at h
    replace h : (mounts.resolve normal >>= fun mount => .ok (normal, mount.2)) = .ok (stored, store) := h
    cases hresolve : mounts.resolve normal with
    | error e =>
      rw [hresolve] at h
      cases h
    | ok mount =>
      rw [hresolve] at h
      cases h
      exact ⟨rfl, mount.1, hresolve⟩

theorem Request.routed (h : request.route mounts clock = .ok (store, visit)) :
    request.Routed mounts clock store visit := by
  cases request with
  | write key data options =>
    simp only [route] at h
    split at h
    next => cases h
    next entry hfresh =>
      split at h
      next => cases h
      next hmount =>
        cases h
        exact .write hfresh hmount
  | read key =>
    simp only [route] at h
    split at h
    next => cases h
    next hplace =>
      cases h
      obtain ⟨hkey, path, hmount⟩ := MountTable.place_eq_ok hplace
      exact .read hkey hmount
  | delete key =>
    simp only [route] at h
    split at h
    next => cases h
    next hplace =>
      cases h
      obtain ⟨hkey, path, hmount⟩ := MountTable.place_eq_ok hplace
      exact .delete hkey hmount
  | calls store' left =>
    cases h
    exact .calls
  | hold store' ms =>
    cases h
    exact .hold
  | _ => cases h

namespace Request.Routed

theorem eq_calls {left : List StoreCall} {replies : List Reply}
    (h : request.Routed mounts clock store (.calls left replies)) : request = .calls store left := by
  cases h
  rfl

theorem eq_hold {ms : Nat} (h : request.Routed mounts clock store (.hold ms)) : request = .hold store ms := by
  cases h
  rfl

end Request.Routed

end RoutedCache

import RoutedCache.Key
import RoutedCache.Text.Quoted

/-!
# Errors

A `CacheError` says why a call gives no answer, and a `StoreFault` why a store could not do what it was asked.
-/

namespace RoutedCache

/-- What may be asked of a store. -/
inductive StoreAction where
  | lock | put | get | delete | list
deriving DecidableEq, Repr

def StoreAction.name : StoreAction → String
  | .lock => "lock"
  | .put => "put"
  | .get => "get"
  | .delete => "delete"
  | .list => "list"

inductive StoreFault where
  | refused (action : StoreAction)
  | undecodable
  | io (cause : String)
  | described (text : String)
deriving DecidableEq, Repr

def StoreFault.message : StoreFault → String
  | .refused action => action.name ++ " refused"
  | .undecodable => "document encoding error"
  | .io cause => "io error: " ++ cause
  | .described text => text

inductive CacheError where
  | notFound (key : String)
  | noMount (key : String)
  | invalidMount (path : String)
  | duplicateMount (path : String)
  | invalidKey (fault : KeyFault)
  | duplicateExpiry
  | cancelled
  | backend (fault : StoreFault)
deriving DecidableEq, Repr

namespace CacheError

def name : CacheError → String
  | notFound _ => "NotFound"
  | noMount _ => "NoMount"
  | invalidMount _ => "InvalidMount"
  | duplicateMount _ => "DuplicateMount"
  | invalidKey _ => "InvalidKey"
  | duplicateExpiry => "DuplicateExpiry"
  | cancelled => "Cancelled"
  | backend _ => "Backend"

/-- The text an error carries. -/
def detail? : CacheError → Option String
  | notFound key => some key
  | noMount key => some key
  | invalidMount path => some path
  | duplicateMount path => some path
  | invalidKey fault => some fault.message
  | duplicateExpiry => none
  | cancelled => none
  | backend fault => some fault.message

def message : CacheError → String
  | notFound key => "Key not found: " ++ key
  | noMount key => "No backend mounted for key: " ++ key
  | invalidMount path => "Invalid mount path: " ++ quote path
  | duplicateMount path => "Mount path already registered: " ++ path
  | invalidKey fault => "Invalid key: " ++ fault.message
  | duplicateExpiry => "Invalid write options: duplicate expiry"
  | cancelled => "Operation cancelled"
  | backend fault => "Backend error: " ++ fault.message

/-- The name of the error with the text it carries. -/
def inspect (e : CacheError) : String :=
  match e.detail? with
  | some text => e.name ++ "(" ++ quote text ++ ")"
  | none => e.name

def isNotFound : CacheError → Bool
  | notFound _ => true
  | _ => false

end CacheError

end RoutedCache

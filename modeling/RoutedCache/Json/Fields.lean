import RoutedCache.Json.Value

/-!
# Fields of a JSON value

Named fields are read from an object, in any order and among any other members, or from an array that holds
exactly the fields in their own order.  A field that occurs twice is refused.
-/

namespace RoutedCache.Json.Value

/-- The members with their names as texts. -/
def named? (members : List (List Piece × Value)) : Option (List (String × Value)) :=
  members.mapM fun member => (Piece.text? member.1).map fun name => (name, member.2)

/-- The member with this name if there is one, refused if there are more. -/
def unique? (members : List (String × Value)) (name : String) : Option (Option Value) :=
  match members.filter fun member => member.1 = name with
  | [] => some none
  | [member] => some (some member.2)
  | _ => none

/-- The values of the named fields, `none` for a field that an object lacks. -/
def fields? (names : List String) : Value → Option (List (Option Value))
  | .array items => if items.length = names.length then some (items.map some) else none
  | .object members => do
    let members ← named? members
    names.mapM (unique? members)
  | _ => none

def text? : Value → Option String
  | .text pieces => Piece.text? pieces
  | _ => none

def bool? : Value → Option Bool
  | .bool b => some b
  | _ => none

end RoutedCache.Json.Value

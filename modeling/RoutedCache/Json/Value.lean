import RoutedCache.Json.Token

/-!
# JSON values

The reader builds a value from tokens with the open arrays and objects on a stack, so that no depth is too
deep. An object keeps its members in the order of the text, repeated names included.
-/

namespace RoutedCache.Json

inductive Value where
  | null
  | bool (b : Bool)
  | number
  | text (pieces : List Piece)
  | array (items : List Value)
  | object (members : List (List Piece × Value))
deriving Repr

/-- An open array or object: what it holds so far, the last one first. -/
inductive Frame where
  | array (items : List Value)
  | object (members : List (List Piece × Value)) (name : List Piece)

/-- What may come next. -/
inductive Expect where
  | value
  | item
  | member (members : List (List Piece × Value))
  | name (members : List (List Piece × Value))
  | colon (members : List (List Piece × Value)) (name : List Piece)
  | separator
  | nothing (result : Value)

structure Builder where
  expect : Expect := .value
  frames : List Frame := []

namespace Builder

/-- A finished value goes into the innermost open array or object. -/
def put (frames : List Frame) (value : Value) : Builder :=
  match frames with
  | [] => ⟨.nothing value, []⟩
  | .array items :: frames => ⟨.separator, .array (value :: items) :: frames⟩
  | .object members name :: frames => ⟨.separator, .object ((name, value) :: members) name :: frames⟩

def value? (frames : List Frame) : Token → Option Builder
  | .null => some (put frames .null)
  | .bool b => some (put frames (.bool b))
  | .number => some (put frames .number)
  | .text pieces => some (put frames (.text pieces))
  | .openBracket => some ⟨.item, .array [] :: frames⟩
  | .openBrace => some ⟨.member [], frames⟩
  | _ => none

def step? (s : Builder) (token : Token) : Option Builder :=
  match s.expect, s.frames, token with
  | .value, frames, token => value? frames token
  | .item, .array items :: frames, .closeBracket => some (put frames (.array items.reverse))
  | .item, frames, token => value? frames token
  | .member members, frames, .closeBrace => some (put frames (.object members.reverse))
  | .member members, frames, .text name => some ⟨.colon members name, frames⟩
  | .name members, frames, .text name => some ⟨.colon members name, frames⟩
  | .colon members name, frames, .colon => some ⟨.value, .object members name :: frames⟩
  | .separator, .array items :: frames, .comma => some ⟨.value, .array items :: frames⟩
  | .separator, .array items :: frames, .closeBracket => some (put frames (.array items.reverse))
  | .separator, .object members _ :: frames, .comma => some ⟨.name members, frames⟩
  | .separator, .object members _ :: frames, .closeBrace => some (put frames (.object members.reverse))
  | _, _, _ => none

def finish? (s : Builder) : Option Value :=
  match s.expect with
  | .nothing value => some value
  | _ => none

end Builder

def Value.ofTokens? (tokens : List Token) : Option Value :=
  (tokens.foldlM Builder.step? ⟨.value, []⟩).bind Builder.finish?

def Value.parse? (text : Bytes) : Option Value := (tokens? text).bind Value.ofTokens?

end RoutedCache.Json

import RoutedCache.Json.Fields
import RoutedCache.Proofs.Json.Lexing

/-!
# Reading written objects

A written object whose values are texts, Booleans or null is read as its members (`Value.parse?_objectText`), and
the names of the members are read as they were written (`Value.fields?_object`).
-/

namespace RoutedCache.Json

/-- A member with the written form of its value and what that form is read as. -/
structure Member where
  name : String
  text : Bytes
  token : Token
  value : Value
  lexes : Lexes text [token]
  builds : ∀ frames, Builder.value? frames token = some (Builder.put frames value)

namespace Member

def ofText (name : String) (bytes : Bytes) : Member :=
  ⟨name, quoted bytes, .text (Piece.pieces bytes), .text (Piece.pieces bytes), lexes_quoted bytes, fun _ => rfl⟩

def ofBool (name : String) (b : Bool) : Member :=
  ⟨name, boolText b, .bool b, .bool b, lexes_boolText b, fun _ => rfl⟩

def ofNull (name : String) : Member :=
  ⟨name, nullText, .null, .null, lexes_nullText, fun _ => rfl⟩

/-- The member as a written object has it. -/
def entry (m : Member) : String × Bytes := (m.name, m.text)

/-- The member as a reader finds it. -/
def found (m : Member) : List Piece × Value := (Piece.pieces (utf8 m.name), m.value)

/-- The tokens of members with commas between them. -/
def tokens : List Member → List Token
  | [] => []
  | [m] => [.text (Piece.pieces (utf8 m.name)), .colon, m.token]
  | m :: rest => .text (Piece.pieces (utf8 m.name)) :: .colon :: m.token :: .comma :: tokens rest

private theorem lexes_memberText (m : Member) :
    Lexes (memberText m.name m.text) [.text (Piece.pieces (utf8 m.name)), .colon, m.token] :=
  (lexes_quoted _).append (lexes_colon.cons m.lexes)

private theorem lexes_joined (members : List Member) :
    Lexes (joined ((members.map entry).map fun member => memberText member.1 member.2)) (tokens members) := by
  induction members using tokens.induct with
  | case1 => exact fun _ => rfl
  | case2 m => exact lexes_memberText m
  | case3 m rest hne ih =>
    cases rest with
    | nil => exact absurd rfl hne
    | cons n rest => exact (lexes_memberText m).append (lexes_comma.cons ih)

theorem lexes_objectText (members : List Member) :
    Lexes (objectText (members.map entry)) (.openBrace :: (tokens members ++ [Token.closeBrace])) :=
  lexes_openBrace.cons ((lexes_joined members).append lexes_closeBrace)

/-! ### Building the object -/

open Builder in
private theorem foldlM_member (m : Member) (frames : List Frame) (before : List (List Piece × Value))
    (rest : List Token) :
    (Token.text (Piece.pieces (utf8 m.name)) :: .colon :: m.token :: rest).foldlM step? ⟨.name before, frames⟩ =
      rest.foldlM step? ⟨.separator, .object (m.found :: before) (Piece.pieces (utf8 m.name)) :: frames⟩ := by
  have hvalue (s : List Frame) : step? ⟨.value, s⟩ m.token = some (put s m.value) := by
    rw [← m.builds s]
    cases m.token <;> rfl
  show Option.bind (step? ⟨.value, .object before (Piece.pieces (utf8 m.name)) :: frames⟩ m.token) _ = _
  rw [hvalue]
  rfl

open Builder in
private theorem foldlM_members {members : List Member} (hne : members ≠ []) (frames : List Frame)
    (before : List (List Piece × Value)) :
    (tokens members ++ [Token.closeBrace]).foldlM step? ⟨.name before, frames⟩ =
      some (put frames (.object (before.reverse ++ members.map found))) := by
  induction members using tokens.induct generalizing before with
  | case1 => exact absurd rfl hne
  | case2 m =>
    rw [tokens, List.cons_append, List.cons_append, List.cons_append, foldlM_member]
    simp [step?]
  | case3 m rest hrest ih =>
    have hrest' : rest ≠ [] := fun h => hrest h
    rw [tokens, List.cons_append, List.cons_append, List.cons_append, foldlM_member, List.cons_append,
      List.foldlM_cons]
    · simp only [step?, Option.bind_eq_bind, Option.bind_some, ih hrest']
      simp
    · exact hrest

private theorem ofTokens?_object (members : List Member) :
    Value.ofTokens? (.openBrace :: (tokens members ++ [Token.closeBrace])) =
      some (.object (members.map found)) := by
  cases members with
  | nil => rfl
  | cons m rest =>
    have hfirst : ((tokens (m :: rest) ++ [Token.closeBrace]).foldlM Builder.step? ⟨.member [], []⟩) =
        (tokens (m :: rest) ++ [Token.closeBrace]).foldlM Builder.step? ⟨.name [], []⟩ := by
      cases rest <;> rfl
    rw [Value.ofTokens?, List.foldlM_cons]
    show Option.bind (List.foldlM Builder.step? ⟨.member [], []⟩ _) _ = _
    rw [hfirst, foldlM_members (List.cons_ne_nil m rest)]
    rfl

end Member

open Member

/-- A written object is read as its members. -/
theorem Value.parse?_objectText (members : List Member) :
    Value.parse? (objectText (members.map entry)) = some (.object (members.map found)) := by
  rw [Value.parse?, (lexes_objectText members).tokens?, Option.bind_some, ofTokens?_object]

/-! ### Fields of an object -/

theorem Value.named?_found (members : List Member) :
    Value.named? (members.map found) = some (members.map fun m => (m.name, m.value)) := by
  induction members with
  | nil => rfl
  | cons m rest ih =>
    simp only [Value.named?] at ih ⊢
    rw [List.map_cons, List.mapM_cons, ih]
    simp [found]

/-- The fields of an object are looked up among its names. -/
theorem Value.fields?_object (names : List String) (members : List Member) :
    Value.fields? names (.object (members.map found)) =
      names.mapM (Value.unique? (members.map fun m => (m.name, m.value))) := by
  simp [Value.fields?, Value.named?_found]

end RoutedCache.Json

import RoutedCache.Proofs.Json.Spelling

/-!
# Values and their tokens

The tokens of a value are its brackets, braces, commas and colons in their places around those of its parts
(`Value.tokens`).  The builder puts a value together from its own tokens and from no others
(`Value.ofTokens?_eq_some_iff`): every token is noted down in the open arrays and objects (`Builder.Came.step`).  So a
text is read as a value exactly if it spells the tokens of the value (`Value.parse?_eq_some_iff`).
-/

namespace RoutedCache.Json

mutual

/-- The tokens of a value. -/
def Value.tokens : Value → List Token
  | .null => [.null]
  | .bool b => [.bool b]
  | .number => [.number]
  | .text pieces => [.text pieces]
  | .array items => .openBracket :: (Value.itemTokens items ++ [.closeBracket])
  | .object members => .openBrace :: (Value.memberTokens members ++ [.closeBrace])

/-- The items of an array with commas between them. -/
def Value.itemTokens : List Value → List Token
  | [] => []
  | [item] => item.tokens
  | item :: other :: rest => item.tokens ++ .comma :: Value.itemTokens (other :: rest)

/-- The members of an object with commas between them. -/
def Value.memberTokens : List (List Piece × Value) → List Token
  | [] => []
  | [(name, value)] => .text name :: .colon :: value.tokens
  | (name, value) :: other :: rest =>
    .text name :: .colon :: (value.tokens ++ .comma :: Value.memberTokens (other :: rest))

end

namespace Builder

/-! ### A value from its tokens -/

private theorem exists_first (value : Value) :
    ∃ first more, value.tokens = first :: more ∧ first ≠ .closeBracket := by
  cases value with
  | null => exact ⟨.null, [], rfl, nofun⟩
  | bool b => exact ⟨.bool b, [], rfl, nofun⟩
  | number => exact ⟨.number, [], rfl, nofun⟩
  | text pieces => exact ⟨.text pieces, [], rfl, nofun⟩
  | array items => exact ⟨.openBracket, _, by rw [Value.tokens], nofun⟩
  | object members => exact ⟨.openBrace, _, by rw [Value.tokens], nofun⟩

/-- The first item of an array is read as any other one. -/
private theorem foldlM_first (frames : List Frame) {items : List Value} (hne : items ≠ []) (rest : List Token) :
    (Value.itemTokens items ++ rest).foldlM step? ⟨.item, .array [] :: frames⟩ =
      (Value.itemTokens items ++ rest).foldlM step? ⟨.value, .array [] :: frames⟩ := by
  have hfirst : ∃ first more, Value.itemTokens items = first :: more ∧ first ≠ .closeBracket := by
    match items with
    | [item] =>
      obtain ⟨first, more, hfirst, hclose⟩ := exists_first item
      exact ⟨first, more, by rw [Value.itemTokens, hfirst], hclose⟩
    | item :: other :: rest =>
      obtain ⟨first, more, hfirst, hclose⟩ := exists_first item
      exact ⟨first, _, by rw [Value.itemTokens, hfirst]; rfl, hclose⟩
  obtain ⟨first, more, hfirst, hclose⟩ := hfirst
  have hstep : step? ⟨.item, .array [] :: frames⟩ first = step? ⟨.value, .array [] :: frames⟩ first := by
    cases first with
    | closeBracket => exact absurd rfl hclose
    | _ => rfl
  rw [hfirst, List.cons_append, List.foldlM_cons, List.foldlM_cons, hstep]

mutual

/-- The builder puts a value together from its tokens. -/
theorem foldlM_tokens : ∀ (value : Value) (frames : List Frame) (rest : List Token),
    (value.tokens ++ rest).foldlM step? ⟨.value, frames⟩ = rest.foldlM step? (put frames value)
  | .null, _, _ => rfl
  | .bool _, _, _ => rfl
  | .number, _, _ => rfl
  | .text _, _, _ => rfl
  | .array [], _, _ => rfl
  | .array (item :: items), frames, rest => by
    rw [Value.tokens, List.cons_append, List.append_assoc, List.foldlM_cons]
    show List.foldlM step? ⟨.item, .array [] :: frames⟩ _ = _
    rw [foldlM_first frames (List.cons_ne_nil _ _), List.singleton_append,
      foldlM_itemTokens (item :: items) (List.cons_ne_nil _ _)]
    rfl
  | .object [], _, _ => rfl
  | .object ((name, value) :: members), frames, rest => by
    rw [Value.tokens, List.cons_append, List.append_assoc, List.foldlM_cons, List.singleton_append]
    have hfirst : (Value.memberTokens ((name, value) :: members) ++ .closeBrace :: rest).foldlM step?
        ⟨.member [], frames⟩ =
          (Value.memberTokens ((name, value) :: members) ++ .closeBrace :: rest).foldlM step? ⟨.name [], frames⟩ := by
      cases members <;> rfl
    show List.foldlM step? ⟨.member [], frames⟩ _ = _
    rw [hfirst, foldlM_memberTokens ((name, value) :: members) (List.cons_ne_nil _ _)]
    rfl

private theorem foldlM_itemTokens : ∀ (items : List Value), items ≠ [] → ∀ (before : List Value)
    (frames : List Frame) (rest : List Token),
    (Value.itemTokens items ++ .closeBracket :: rest).foldlM step? ⟨.value, .array before :: frames⟩ =
      rest.foldlM step? (put frames (.array (before.reverse ++ items)))
  | [], hne, _, _, _ => absurd rfl hne
  | [item], _, before, frames, rest => by
    rw [Value.itemTokens, foldlM_tokens item, List.foldlM_cons, ← List.reverse_cons]
    rfl
  | item :: other :: items, _, before, frames, rest => by
    have hitems := foldlM_itemTokens (other :: items) (List.cons_ne_nil _ _) (item :: before) frames rest
    rw [List.reverse_cons, List.append_assoc, List.singleton_append] at hitems
    rw [Value.itemTokens, List.append_assoc, foldlM_tokens item, List.cons_append, List.foldlM_cons, ← hitems]
    rfl

private theorem foldlM_memberTokens : ∀ (members : List (List Piece × Value)), members ≠ [] →
    ∀ (before : List (List Piece × Value)) (frames : List Frame) (rest : List Token),
    (Value.memberTokens members ++ .closeBrace :: rest).foldlM step? ⟨.name before, frames⟩ =
      rest.foldlM step? (put frames (.object (before.reverse ++ members)))
  | [], hne, _, _, _ => absurd rfl hne
  | [(name, value)], _, before, frames, rest => by
    rw [Value.memberTokens]
    show List.foldlM step? ⟨.value, .object before name :: frames⟩ (value.tokens ++ .closeBrace :: rest) = _
    rw [foldlM_tokens value, List.foldlM_cons, ← List.reverse_cons]
    rfl
  | (name, value) :: other :: members, _, before, frames, rest => by
    have hmembers := foldlM_memberTokens (other :: members) (List.cons_ne_nil _ _) ((name, value) :: before) frames rest
    rw [List.reverse_cons, List.append_assoc, List.singleton_append] at hmembers
    rw [Value.memberTokens, ← hmembers]
    show List.foldlM step? ⟨.value, .object before name :: frames⟩ (value.tokens ++ .comma :: _ ++ _) = _
    rw [List.append_assoc, foldlM_tokens value, List.cons_append, List.foldlM_cons]
    rfl

end

end Builder

/-! ### The tokens behind a state -/

theorem Value.itemTokens_concat (items : List Value) (item : Value) :
    itemTokens (items ++ [item]) = items.flatMap (fun item => item.tokens ++ [.comma]) ++ item.tokens := by
  induction items with
  | nil => rw [List.nil_append, itemTokens, List.flatMap_nil, List.nil_append]
  | cons first items ih =>
    have hcons : itemTokens (first :: (items ++ [item])) = first.tokens ++ .comma :: itemTokens (items ++ [item]) := by
      cases items <;> rfl
    rw [List.cons_append, hcons, ih, List.flatMap_cons]
    simp

theorem Value.memberTokens_concat (members : List (List Piece × Value)) (member : List Piece × Value) :
    memberTokens (members ++ [member]) =
      members.flatMap (fun member => memberTokens [member] ++ [.comma]) ++ memberTokens [member] := by
  induction members with
  | nil => rfl
  | cons first members ih =>
    have hcons : memberTokens (first :: (members ++ [member])) =
        memberTokens [first] ++ .comma :: memberTokens (members ++ [member]) := by
      cases members <;> rfl
    rw [List.cons_append, hcons, ih, List.flatMap_cons]
    simp

/-- The items of an open array, each with a comma behind it. -/
def Value.pendingItems (items : List Value) : List Token :=
  items.reverse.flatMap fun item => item.tokens ++ [.comma]

/-- The members of an open object, each with a comma behind it. -/
def Value.pendingMembers (members : List (List Piece × Value)) : List Token :=
  members.reverse.flatMap fun member => memberTokens [member] ++ [.comma]

theorem Value.itemTokens_reverse_cons (item : Value) (items : List Value) :
    itemTokens (item :: items).reverse = pendingItems items ++ item.tokens := by
  rw [List.reverse_cons, itemTokens_concat]
  rfl

theorem Value.memberTokens_reverse_cons (name : List Piece) (value : Value) (members : List (List Piece × Value)) :
    memberTokens ((name, value) :: members).reverse =
      pendingMembers members ++ .text name :: .colon :: value.tokens := by
  rw [List.reverse_cons, memberTokens_concat]
  rfl

theorem Value.pendingItems_cons (item : Value) (items : List Value) :
    pendingItems (item :: items) = itemTokens (item :: items).reverse ++ [.comma] := by
  rw [itemTokens_reverse_cons, pendingItems, pendingItems, List.reverse_cons, List.flatMap_append,
    List.flatMap_singleton, List.append_assoc]

theorem Value.pendingMembers_cons (member : List Piece × Value) (members : List (List Piece × Value)) :
    pendingMembers (member :: members) = memberTokens (member :: members).reverse ++ [.comma] := by
  rw [memberTokens_reverse_cons, pendingMembers, pendingMembers, List.reverse_cons, List.flatMap_append,
    List.flatMap_singleton, List.append_assoc]
  rfl

/-- The tokens of open arrays and objects, the innermost one first, up to where a value begins. -/
def openTokens : List Frame → List Token
  | [] => []
  | .array items :: frames => openTokens frames ++ .openBracket :: Value.pendingItems items
  | .object members name :: frames =>
    openTokens frames ++ .openBrace :: (Value.pendingMembers members ++ [.text name, .colon])

namespace Builder

/-- The tokens that have led the builder to this state. -/
inductive Came : Builder → List Token → Prop
  | value {frames} : Came ⟨.value, frames⟩ (openTokens frames)
  | item {frames} : Came ⟨.item, .array [] :: frames⟩ (openTokens (.array [] :: frames))
  | member {frames} : Came ⟨.member [], frames⟩ (openTokens frames ++ [.openBrace])
  | name {frames member members} : Came ⟨.name (member :: members), frames⟩
      (openTokens frames ++ .openBrace :: Value.pendingMembers (member :: members))
  | colon {frames members name} : Came ⟨.colon members name, frames⟩
      (openTokens frames ++ .openBrace :: (Value.pendingMembers members ++ [.text name]))
  | items {frames item items} : Came ⟨.separator, .array (item :: items) :: frames⟩
      (openTokens frames ++ .openBracket :: Value.itemTokens (item :: items).reverse)
  | members {frames member members name} : Came ⟨.separator, .object (member :: members) name :: frames⟩
      (openTokens frames ++ .openBrace :: Value.memberTokens (member :: members).reverse)
  | nothing (value : Value) : Came ⟨.nothing value, []⟩ value.tokens

theorem came_put (frames : List Frame) (value : Value) :
    Came (put frames value) (openTokens frames ++ value.tokens) := by
  match frames with
  | [] => exact .nothing value
  | .array items :: frames =>
    rw [openTokens, List.append_assoc, List.cons_append, ← Value.itemTokens_reverse_cons]
    exact .items
  | .object members name :: frames =>
    rw [openTokens, List.append_assoc, List.cons_append, List.append_assoc]
    show Came _ (_ ++ .openBrace :: (Value.pendingMembers members ++ .text name :: .colon :: value.tokens))
    rw [← Value.memberTokens_reverse_cons]
    exact .members

private theorem came_value {frames : List Frame} {token : Token} {s : Builder} (h : value? frames token = some s) :
    Came s (openTokens frames ++ [token]) := by
  cases token with
  | null => cases h; exact came_put frames .null
  | bool b => cases h; exact came_put frames (.bool b)
  | number => cases h; exact came_put frames .number
  | text pieces => cases h; exact came_put frames (.text pieces)
  | openBracket => cases h; exact .item
  | openBrace => cases h; exact .member
  | _ => cases h

private theorem came_array (frames : List Frame) (items : List Value) :
    Came (put frames (.array items))
      (openTokens frames ++ .openBracket :: Value.itemTokens items ++ [.closeBracket]) := by
  have hput := came_put frames (.array items)
  rw [Value.tokens, ← List.cons_append, ← List.append_assoc] at hput
  exact hput

private theorem came_object (frames : List Frame) (members : List (List Piece × Value)) :
    Came (put frames (.object members))
      (openTokens frames ++ .openBrace :: Value.memberTokens members ++ [.closeBrace]) := by
  have hput := came_put frames (.object members)
  rw [Value.tokens, ← List.cons_append, ← List.append_assoc] at hput
  exact hput

theorem Came.step {s next : Builder} {tokens : List Token} {token : Token} (h : Came s tokens)
    (hs : s.step? token = some next) : Came next (tokens ++ [token]) := by
  cases h with
  | value => exact came_value hs
  | @item frames =>
    cases token with
    | closeBracket =>
      cases hs
      exact came_array frames []
    | _ => exact came_value hs
  | @member frames =>
    cases token with
    | closeBrace =>
      cases hs
      exact came_object frames []
    | text name =>
      cases hs
      rw [List.append_assoc]
      exact .colon
    | _ => cases hs
  | name =>
    cases token with
    | text name =>
      cases hs
      rw [List.append_assoc]
      exact .colon
    | _ => cases hs
  | @colon frames members name =>
    cases token with
    | colon =>
      cases hs
      have hvalue : Came ⟨.value, .object members name :: frames⟩ _ := .value
      simpa [openTokens] using hvalue
    | _ => cases hs
  | @items frames item items =>
    cases token with
    | comma =>
      cases hs
      rw [List.append_assoc, List.cons_append, ← Value.pendingItems_cons]
      have hvalue : Came ⟨.value, .array (item :: items) :: frames⟩ _ := .value
      exact hvalue
    | closeBracket =>
      cases hs
      exact came_array frames (item :: items).reverse
    | _ => cases hs
  | @members frames member members name =>
    cases token with
    | comma =>
      cases hs
      rw [List.append_assoc, List.cons_append, ← Value.pendingMembers_cons]
      exact .name
    | closeBrace =>
      cases hs
      exact came_object frames (member :: members).reverse
    | _ => cases hs
  | nothing value => cases token <;> cases hs

theorem Came.steps {s last : Builder} {before tokens : List Token} (h : Came s before)
    (hs : tokens.foldlM step? s = some last) : Came last (before ++ tokens) := by
  induction tokens generalizing s before with
  | nil =>
    cases hs
    rw [List.append_nil]
    exact h
  | cons token tokens ih =>
    rw [List.foldlM_cons] at hs
    obtain ⟨next, hnext, hs⟩ := Option.bind_eq_some_iff.1 hs
    have hlast := ih (h.step hnext) hs
    rwa [List.append_assoc] at hlast

theorem foldlM_value_tokens (value : Value) : value.tokens.foldlM step? ⟨.value, []⟩ = some ⟨.nothing value, []⟩ := by
  have h := foldlM_tokens value [] []
  rwa [List.append_nil] at h

end Builder

/-- Tokens make a value exactly if they are its own. -/
theorem Value.ofTokens?_eq_some_iff {tokens : List Token} {value : Value} :
    ofTokens? tokens = some value ↔ tokens = value.tokens := by
  constructor
  · intro h
    obtain ⟨s, hs, hfinish⟩ := Option.bind_eq_some_iff.1 h
    have hstart : Builder.Came ⟨.value, []⟩ _ := .value
    have hcame := hstart.steps hs
    rw [openTokens, List.nil_append] at hcame
    cases hcame with
    | nothing => cases hfinish; rfl
    | _ => cases hfinish
  · rintro rfl
    rw [ofTokens?, Builder.foldlM_value_tokens]
    rfl

/-- The texts of a value are its tokens with any white space around them. -/
theorem Value.parse?_eq_some_iff {text : Bytes} {value : Value} :
    Value.parse? text = some value ↔ SpellsTokens value.tokens text := by
  simp only [Value.parse?, Option.bind_eq_some_iff, tokens?_eq_some_iff, Value.ofTokens?_eq_some_iff, exists_eq_right]

/-! ### The end of a text -/

/-- No value goes on where another one ends. -/
theorem Value.tokens_append {value other : Value} {rest : List Token} (h : value.tokens ++ rest = other.tokens) :
    rest = [] := by
  have hother := Builder.foldlM_value_tokens other
  rw [← h, Builder.foldlM_tokens value] at hother
  cases rest with
  | nil => rfl
  | cons token rest =>
    rw [List.foldlM_cons] at hother
    cases hother

/-- After an object there is nothing but white space. -/
theorem Value.parse?_append {members : List (List Piece × Value)} {text rest : Bytes} {value : Value}
    (hobject : SpellsTokens (Value.object members).tokens text) (h : Value.parse? (text ++ rest) = some value) :
    Blank rest := by
  have hlast : (Value.object members).tokens.getLast? = some .closeBrace := by
    rw [Value.tokens, ← List.cons_append, List.getLast?_concat]
  generalize htokens : (Value.object members).tokens = tokens at hobject hlast
  obtain ⟨s, hs, hfinish⟩ := Option.bind_eq_some_iff.1 (tokens?_eq_some_iff.2 hobject)
  -- a brace is no number, so that the lexer stands between tokens at the end of the object
  have hbetween : s = ⟨.between, tokens.reverse⟩ := by
    obtain ⟨mode, before⟩ := s
    cases mode with
    | between =>
      cases hfinish
      rw [List.reverse_reverse]
    | number part =>
      simp only [Lexer.finish?] at hfinish
      split at hfinish
      next =>
        cases hfinish
        rw [List.getLast?_reverse] at hlast
        cases hlast
      next => cases hfinish
    | _ => cases hfinish
  have hlex : Lexer.run ⟨.between, tokens.reverse⟩ rest = some value.tokens := by
    have hall := tokens?_eq_some_iff.2 (Value.parse?_eq_some_iff.1 h)
    rw [tokens?, List.foldlM_append, hs, hbetween] at hall
    exact hall
  obtain ⟨more, hmore, hrest⟩ := Lexer.exists_of_run hlex
  rw [List.reverse_reverse] at hmore
  have hnil := Value.tokens_append (htokens ▸ hmore.symm)
  subst hnil
  cases hrest with
  | blank hblank => exact hblank

end RoutedCache.Json

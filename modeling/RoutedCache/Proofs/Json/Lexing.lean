import RoutedCache.Json.Value
import RoutedCache.Json.Writer
import RoutedCache.Proofs.Text.Utf8

/-!
# Lexing written texts

What the writer puts between quotes is one token for the lexer (`lexes_quoted`), and the pieces of that token
give the bytes back (`Piece.decode?_pieces`).  A text lexes to tokens if it leads the lexer from between tokens to
between tokens; such texts can be put one after the other.
-/

namespace RoutedCache.Json

/-- From between tokens on, the lexer reads the text as these tokens and stands between tokens again. -/
def Lexes (text : Bytes) (tokens : List Token) : Prop :=
  ∀ before, text.foldlM Lexer.step? ⟨.between, before⟩ = some ⟨.between, tokens.reverse ++ before⟩

theorem Lexes.append {a b : Bytes} {s t : List Token} (ha : Lexes a s) (hb : Lexes b t) :
    Lexes (a ++ b) (s ++ t) := by
  intro before
  rw [List.foldlM_append, ha before, Option.bind_eq_bind, Option.bind_some, hb, List.reverse_append,
    List.append_assoc]

theorem Lexes.cons {b : UInt8} {a : Bytes} {token : Token} {t : List Token} (hb : Lexes [b] [token])
    (ha : Lexes a t) : Lexes (b :: a) (token :: t) :=
  hb.append ha

theorem Lexes.tokens? {text : Bytes} {tokens : List Token} (h : Lexes text tokens) :
    tokens? text = some tokens := by
  rw [Json.tokens?, h []]
  simp [Lexer.finish?]

theorem lexes_openBrace : Lexes [0x7B] [.openBrace] := fun _ => rfl

theorem lexes_closeBrace : Lexes [0x7D] [.closeBrace] := fun _ => rfl

theorem lexes_comma : Lexes [0x2C] [.comma] := fun _ => rfl

theorem lexes_colon : Lexes [0x3A] [.colon] := fun _ => rfl

theorem lexes_nullText : Lexes nullText [.null] := by
  have : nullText = [0x6E, 0x75, 0x6C, 0x6C] := by decide
  rw [this]
  exact fun _ => rfl

theorem lexes_boolText (b : Bool) : Lexes (boolText b) [.bool b] := by
  cases b with
  | true =>
    have : boolText true = [0x74, 0x72, 0x75, 0x65] := by decide
    rw [this]
    exact fun _ => rfl
  | false =>
    have : boolText false = [0x66, 0x61, 0x6C, 0x73, 0x65] := by decide
    rw [this]
    exact fun _ => rfl

/-! ### Texts between quotes -/

/-- The piece that the written form of a byte is read as: control characters without a short escape are written
as UTF-16 units. -/
def Piece.ofByte (b : UInt8) : Piece :=
  if b < 0x20 ∧ b ≠ 0x08 ∧ b ≠ 0x0C ∧ b ≠ 0x0A ∧ b ≠ 0x0D ∧ b ≠ 0x09 then .unit b.toNat else .byte b

def Piece.pieces (bytes : Bytes) : List Piece := bytes.map Piece.ofByte

private theorem hexValue?_hexDigit {n : Nat} (h : n < 16) : hexValue? (hexDigit n) = some n := by
  have : ∀ n : Fin 16, hexValue? (hexDigit n) = some n.val := by decide
  exact this ⟨n, h⟩

private theorem foldlM_control {b : UInt8} (hb : b < 0x20) (pieces : List Piece) (tokens : List Token) :
    [0x5C, 0x75, 0x30, 0x30, hexDigit (b.toNat / 16), hexDigit (b.toNat % 16)].foldlM Lexer.step?
      ⟨.text pieces, tokens⟩ = some ⟨.text (.unit b.toNat :: pieces), tokens⟩ := by
  have hlt : b.toNat < 32 := hb
  have hhigh := hexValue?_hexDigit (show b.toNat / 16 < 16 by omega)
  have hlow := hexValue?_hexDigit (show b.toNat % 16 < 16 by omega)
  have hzero : hexValue? 0x30 = some 0 := by decide
  simp [Lexer.step?, hhigh, hlow, hzero]
  omega

private theorem foldlM_escapeByte (b : UInt8) (pieces : List Piece) (tokens : List Token) :
    (escapeByte b).foldlM Lexer.step? ⟨.text pieces, tokens⟩ =
      some ⟨.text (Piece.ofByte b :: pieces), tokens⟩ := by
  unfold escapeByte
  split
  next h => subst h; rfl
  next hquote =>
    split
    next h => subst h; rfl
    next hslash =>
      split
      next h => subst h; rfl
      next h08 =>
        split
        next h => subst h; rfl
        next h0C =>
          split
          next h => subst h; rfl
          next h0A =>
            split
            next h => subst h; rfl
            next h0D =>
              split
              next h => subst h; rfl
              next h09 =>
                split
                next hb =>
                  rw [foldlM_control hb, Piece.ofByte, if_pos ⟨hb, h08, h0C, h0A, h0D, h09⟩]
                next hb =>
                  rw [Piece.ofByte, if_neg fun h => hb h.1]
                  simp [Lexer.step?, hquote, hslash, hb]

private theorem foldlM_escaped (bytes : Bytes) (pieces : List Piece) (tokens : List Token) :
    (bytes.flatMap escapeByte).foldlM Lexer.step? ⟨.text pieces, tokens⟩ =
      some ⟨.text ((Piece.pieces bytes).reverse ++ pieces), tokens⟩ := by
  induction bytes generalizing pieces with
  | nil => rfl
  | cons b bytes ih =>
    rw [List.flatMap_cons, List.foldlM_append, foldlM_escapeByte, Option.bind_eq_bind, Option.bind_some, ih]
    simp [Piece.pieces]

/-- A text between quotes is one token. -/
theorem lexes_quoted (bytes : Bytes) : Lexes (quoted bytes) [.text (Piece.pieces bytes)] := by
  intro before
  have hopen : Lexer.step? ⟨.between, before⟩ 0x22 = some ⟨.text [], before⟩ := rfl
  have hclose (pieces : List Piece) : [0x22].foldlM Lexer.step? ⟨.text pieces, before⟩ =
      some ⟨.between, .text pieces.reverse :: before⟩ := rfl
  rw [quoted, List.foldlM_cons, hopen, Option.bind_eq_bind, Option.bind_some, List.foldlM_append,
    foldlM_escaped, Option.bind_eq_bind, Option.bind_some, hclose]
  simp

/-! ### The bytes of the pieces -/

private theorem scalarBytes_control {b : UInt8} (hb : b < 0x20) : scalarBytes b.toNat = [b] := by
  have hlt : b.toNat < 32 := hb
  have : ∀ n : Fin 32, scalarBytes n.val = [n.val.toUInt8] := by decide
  rw [this ⟨b.toNat, hlt⟩]
  simp

theorem Piece.decode?_pieces (bytes : Bytes) : Piece.decode? (Piece.pieces bytes) = some bytes := by
  induction bytes with
  | nil => rfl
  | cons b bytes ih =>
    show Piece.decode? (Piece.ofByte b :: Piece.pieces bytes) = some (b :: bytes)
    unfold Piece.ofByte
    split
    next h =>
      have hlt : b.toNat < 32 := h.1
      rw [Piece.decode?.eq_def]
      simp only
      rw [if_neg (by omega), if_neg (by omega), ih, scalarBytes_control h.1]
      rfl
    next h =>
      rw [Piece.decode?, ih]
      rfl

@[simp] theorem Piece.text?_pieces (s : String) : Piece.text? (Piece.pieces (utf8 s)) = some s := by
  rw [Piece.text?, Piece.decode?_pieces, Option.bind_some, Bytes.text?_utf8]

end RoutedCache.Json

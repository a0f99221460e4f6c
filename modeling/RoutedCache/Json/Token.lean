import RoutedCache.Bytes

/-!
# Tokens of a JSON text

The lexer takes one byte at a time and knows where it stands by its `Mode`.  A text token keeps its pieces:
bytes that stand for themselves or for a short escape, and the UTF-16 units of `\u` escapes.  Whether the
pieces form a text is decided only where the text is needed (`Piece.decode?`).
-/

namespace RoutedCache.Json

inductive Piece where
  | byte (b : UInt8)
  | unit (u : Nat)
deriving DecidableEq, Repr

inductive Token where
  | openBrace | closeBrace | openBracket | closeBracket | comma | colon
  | null
  | bool (b : Bool)
  | number
  | text (pieces : List Piece)
deriving DecidableEq, Repr

/-- Where the lexer stands in a number; the cases that may end it are those after a digit of each part. -/
inductive NumberPart where
  | sign | zero | whole | point | fraction | exponent | exponentSign | power
deriving DecidableEq, Repr

inductive Mode where
  | between
  | text (pieces : List Piece)
  | escape (pieces : List Piece)
  | unit (pieces : List Piece) (left value : Nat)
  | word (next : UInt8) (left : Bytes) (token : Token)
  | number (part : NumberPart)
deriving DecidableEq, Repr

/-- The tokens so far, the last one first. -/
structure Lexer where
  mode : Mode := .between
  tokens : List Token := []

def isSpace (b : UInt8) : Bool := b == 0x20 || b == 0x0A || b == 0x0D || b == 0x09

def isDigitByte (b : UInt8) : Bool := 0x30 ≤ b && b ≤ 0x39

def hexValue? (b : UInt8) : Option Nat :=
  if 0x30 ≤ b ∧ b ≤ 0x39 then some (b.toNat - 0x30)
  else if 0x41 ≤ b ∧ b ≤ 0x46 then some (b.toNat - 0x37)
  else if 0x61 ≤ b ∧ b ≤ 0x66 then some (b.toNat - 0x57)
  else none

/-- The byte that a one-letter escape stands for. -/
def shortEscape? (b : UInt8) : Option UInt8 :=
  if b = 0x22 ∨ b = 0x5C ∨ b = 0x2F then some b
  else if b = 0x62 then some 0x08
  else if b = 0x66 then some 0x0C
  else if b = 0x6E then some 0x0A
  else if b = 0x72 then some 0x0D
  else if b = 0x74 then some 0x09
  else none

/-- The part of a number after one more byte, `none` if the byte does not belong to the number. -/
def NumberPart.next? (part : NumberPart) (b : UInt8) : Option NumberPart :=
  let isE := b = 0x65 ∨ b = 0x45
  match part with
  | .sign => if b = 0x30 then some .zero else if isDigitByte b then some .whole else none
  | .zero => if b = 0x2E then some .point else if isE then some .exponent else none
  | .whole =>
    if isDigitByte b then some .whole else if b = 0x2E then some .point
    else if isE then some .exponent else none
  | .point => if isDigitByte b then some .fraction else none
  | .fraction => if isDigitByte b then some .fraction else if isE then some .exponent else none
  | .exponent =>
    if isDigitByte b then some .power else if b = 0x2B ∨ b = 0x2D then some .exponentSign else none
  | .exponentSign => if isDigitByte b then some .power else none
  | .power => if isDigitByte b then some .power else none

/-- Whether a number may end here, before the byte `b` if there is one.  A digit never follows a leading
zero. -/
def NumberPart.ends : NumberPart → Bool
  | .zero | .whole | .fraction | .power => true
  | _ => false

namespace Lexer

def emit (tokens : List Token) (token : Token) : Lexer := ⟨.between, token :: tokens⟩

/-- A byte between tokens. -/
def begin? (tokens : List Token) (b : UInt8) : Option Lexer :=
  if isSpace b then some ⟨.between, tokens⟩
  else if b = 0x7B then some (emit tokens .openBrace)
  else if b = 0x7D then some (emit tokens .closeBrace)
  else if b = 0x5B then some (emit tokens .openBracket)
  else if b = 0x5D then some (emit tokens .closeBracket)
  else if b = 0x2C then some (emit tokens .comma)
  else if b = 0x3A then some (emit tokens .colon)
  else if b = 0x22 then some ⟨.text [], tokens⟩
  else if b = 0x6E then some ⟨.word 0x75 [0x6C, 0x6C] .null, tokens⟩
  else if b = 0x74 then some ⟨.word 0x72 [0x75, 0x65] (.bool true), tokens⟩
  else if b = 0x66 then some ⟨.word 0x61 [0x6C, 0x73, 0x65] (.bool false), tokens⟩
  else if b = 0x2D then some ⟨.number .sign, tokens⟩
  else if b = 0x30 then some ⟨.number .zero, tokens⟩
  else if isDigitByte b then some ⟨.number .whole, tokens⟩
  else none

def step? (s : Lexer) (b : UInt8) : Option Lexer :=
  match s.mode with
  | .between => begin? s.tokens b
  | .text pieces =>
    if b = 0x22 then some (emit s.tokens (.text pieces.reverse))
    else if b = 0x5C then some ⟨.escape pieces, s.tokens⟩
    else if b < 0x20 then none
    else some ⟨.text (.byte b :: pieces), s.tokens⟩
  | .escape pieces =>
    if b = 0x75 then some ⟨.unit pieces 4 0, s.tokens⟩
    else (shortEscape? b).map fun c => ⟨.text (.byte c :: pieces), s.tokens⟩
  | .unit pieces left value =>
    (hexValue? b).map fun digit =>
      let value := value * 16 + digit
      if left ≤ 1 then ⟨.text (.unit value :: pieces), s.tokens⟩
      else ⟨.unit pieces (left - 1) value, s.tokens⟩
  | .word next left token =>
    if b = next then
      match left with
      | [] => some (emit s.tokens token)
      | next :: left => some ⟨.word next left token, s.tokens⟩
    else none
  | .number part =>
    match part.next? b with
    | some part => some ⟨.number part, s.tokens⟩
    | none => if part.ends ∧ ¬isDigitByte b then begin? (.number :: s.tokens) b else none

/-- The tokens in order, if the text may end here. -/
def finish? (s : Lexer) : Option (List Token) :=
  match s.mode with
  | .between => some s.tokens.reverse
  | .number part => if part.ends then some (Token.number :: s.tokens).reverse else none
  | _ => none

end Lexer

def tokens? (text : Bytes) : Option (List Token) :=
  (text.foldlM Lexer.step? ⟨.between, []⟩).bind Lexer.finish?

/-! ### The text of a text token -/

/-- The UTF-8 form of a character. -/
def scalarBytes (u : Nat) : Bytes := utf8 (String.singleton (Char.ofNat u))

/-- The bytes of the pieces: a leading surrogate needs a trailing one after it, and neither stands alone. -/
def Piece.decode? : List Piece → Option Bytes
  | [] => some []
  | .byte b :: rest => (Piece.decode? rest).map (b :: ·)
  | .unit u :: rest =>
    if 0xD800 ≤ u ∧ u < 0xDC00 then
      match rest with
      | .unit v :: rest =>
        if 0xDC00 ≤ v ∧ v < 0xE000 then
          (Piece.decode? rest).map (scalarBytes (0x10000 + (u - 0xD800) * 0x400 + (v - 0xDC00)) ++ ·)
        else none
      | _ => none
    else if 0xDC00 ≤ u ∧ u < 0xE000 then none
    else (Piece.decode? rest).map (scalarBytes u ++ ·)

/-- The text of the pieces, if their bytes are UTF-8. -/
def Piece.text? (pieces : List Piece) : Option String := (Piece.decode? pieces).bind Bytes.text?

end RoutedCache.Json

import RoutedCache.Text.Blank

/-!
# Atoms of a pattern

An atom is the smallest part of a pattern: a character, a kind of characters, or a place such as the start of
the text.  Which atoms a pattern may have depends on its mode.  A pattern is matched against texts of UTF-8,
and without a table of characters beyond ASCII: in the mode of whole characters there are no kinds, no edges
of words and no disregard of case, since those would need the table; in the mode of bytes there is nothing
that could match a part of a character.
-/

namespace RoutedCache

structure PatternMode where
  /-- Whether a pattern is about characters and not about bytes. -/
  unicode : Bool := true
  caseless : Bool := false
  /-- Whether blanks and comments between the atoms count for nothing. -/
  spaced : Bool := false
deriving DecidableEq, Repr

inductive PatternAtom where
  /-- A character as it stands there or by its code. -/
  | char (c : Char)
  /-- A code of two digits, which in the mode of bytes is that of a byte. -/
  | byte (c : Char)
  | anyChar
  /-- Digits, blanks or the characters of words, or all others. -/
  | kind (negated : Bool)
  /-- A class of ASCII characters by its name, or all others. -/
  | named (negated : Bool)
  | anchor
  | wordEdge
deriving DecidableEq, Repr

/-- The one character that an atom stands for. -/
def PatternAtom.char? : PatternAtom → Option Char
  | .char c => some c
  | .byte c => some c
  | _ => none

namespace PatternMode

/-- Whether an atom may stand in a pattern. -/
def allows (mode : PatternMode) : PatternAtom → Bool
  | .char _ => !(mode.unicode && mode.caseless)
  | .byte c => if mode.unicode then !mode.caseless else c.toNat < 128
  | .anyChar => mode.unicode
  | .kind negated => !mode.unicode && !negated
  | .named negated => if mode.unicode then !mode.caseless else !negated
  | .anchor => true
  | .wordEdge => !mode.unicode

/-- Whether an atom may stand in a class.  A class of bytes has characters of one byte. -/
def allowsInClass (mode : PatternMode) (atom : PatternAtom) : Bool :=
  mode.allows atom &&
    match atom with
    | .char c => mode.unicode || c.toNat < 128
    | .anyChar | .anchor | .wordEdge => false
    | _ => true

/-- The rest of a text after blanks and comments.  A comment goes from `#` to the end of its line. -/
def afterNotes (inComment : Bool) : List Char → List Char
  | [] => []
  | c :: rest =>
    if inComment then afterNotes (c ≠ '\n') rest
    else if isBlank c then afterNotes false rest
    else if c = '#' then afterNotes true rest
    else c :: rest

/-- The rest of a text from its first character that counts. -/
def skip (mode : PatternMode) (text : List Char) : List Char :=
  if mode.spaced then afterNotes false text else text

end PatternMode

def hexDigit? (c : Char) : Option Nat :=
  if c.isDigit then some (c.toNat - 48)
  else if 'a' ≤ c.toLower && c.toLower ≤ 'f' then some (c.toLower.toNat - 87)
  else none

namespace PatternMode

/-- Reads the code of a character by so many more digits. -/
def readCode? (mode : PatternMode) : Nat → Nat → List Char → Option (Char × List Char)
  | 0, code, rest => if code.isValidChar then some (Char.ofNat code, rest) else none
  | left + 1, code, rest =>
    match mode.skip rest with
    | [] => none
    | c :: rest => (hexDigit? c).bind fun digit => mode.readCode? left (16 * code + digit) rest

/-- Reads what follows a backslash.  An ASCII character other than a letter or a digit stands for itself. -/
def readEscape? (mode : PatternMode) : List Char → Option (PatternAtom × List Char)
  | [] => none
  | c :: rest =>
    let charOf (code : Option (Char × List Char)) := code.map fun (c, rest) => (PatternAtom.char c, rest)
    match c with
    | 'x' => (mode.readCode? 2 0 rest).map fun (c, rest) => (.byte c, rest)
    | 'u' => charOf (mode.readCode? 4 0 rest)
    | 'U' => charOf (mode.readCode? 8 0 rest)
    | 'd' | 's' | 'w' => some (.kind false, rest)
    | 'D' | 'S' | 'W' => some (.kind true, rest)
    | 'A' | 'z' => some (.anchor, rest)
    | 'b' | 'B' | '<' | '>' => some (.wordEdge, rest)
    | 'a' => some (.char '\x07', rest)
    | 't' => some (.char '\t', rest)
    | 'n' => some (.char '\n', rest)
    | 'v' => some (.char '\x0b', rest)
    | 'f' => some (.char '\x0c', rest)
    | 'r' => some (.char '\r', rest)
    | _ => if c.toNat < 128 && !c.isAlphanum then some (.char c, rest) else none

/-- Reads an atom. -/
def readAtom? (mode : PatternMode) : List Char → Option (PatternAtom × List Char)
  | [] => none
  | '\\' :: rest => mode.readEscape? rest
  | '.' :: rest => some (.anyChar, rest)
  | '^' :: rest => some (.anchor, rest)
  | '$' :: rest => some (.anchor, rest)
  | c :: rest => some (.char c, rest)

/-- Reads an atom of a class, where only the backslash has a meaning. -/
def readMember? (mode : PatternMode) : List Char → Option (PatternAtom × List Char)
  | [] => none
  | '\\' :: rest => mode.readEscape? rest
  | c :: rest => some (.char c, rest)

end PatternMode

end RoutedCache

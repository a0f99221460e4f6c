import RoutedCache.Log.Pattern.Atom

/-!
# Classes of a pattern

A class lists characters in brackets: single ones, ranges, kinds, classes of ASCII characters by their names,
and classes in brackets of their own.  Two classes are joined by an operator.  Reading a class gives its
depth, which is how many constructs lie within each other.
-/

namespace RoutedCache

/-- The depth of parts that stand side by side. -/
def depthOfAll : List Nat → Nat
  | [] => 0
  | [depth] => depth
  | depths => 1 + depths.foldl max 0

/-- The depth of two parts with something between them. -/
def depthOfBoth (left right : Nat) : Nat := 1 + max left right

/-- The part of a class that has been read. -/
structure ClassReader where
  /-- The depth of what stands before the last operator. -/
  left : Option Nat := none
  /-- The depths of the members after it. -/
  members : List Nat := []
  /-- Whether nothing but dashes has been read. -/
  opening : Bool := true
deriving DecidableEq, Repr

namespace ClassReader

def add (r : ClassReader) (depth : Nat) : ClassReader :=
  { r with members := depth :: r.members, opening := false }

def depth (r : ClassReader) : Nat :=
  match r.left with
  | none => depthOfAll r.members
  | some left => depthOfBoth left (depthOfAll r.members)

def operator (r : ClassReader) : ClassReader := { left := some r.depth, members := [], opening := false }

end ClassReader

/-- The names of the classes of ASCII characters. -/
def classNames : List String :=
  ["alnum", "alpha", "ascii", "blank", "cntrl", "digit", "graph", "lower", "print", "punct", "space", "upper",
    "word", "xdigit"]

/-- Reads a class by its name, after the bracket: a name between colons, and a bracket. -/
def readNamed? : List Char → Option (PatternAtom × List Char)
  | ':' :: rest =>
    let (negated, rest) := match rest with
      | '^' :: rest => (true, rest)
      | rest => (false, rest)
    let name := rest.takeWhile (· ≠ ':')
    match rest.drop name.length with
    | ':' :: ']' :: rest =>
      if classNames.contains (String.ofList name) then some (.named negated, rest) else none
    | _ => none
  | _ => none

/-- The ends of a range are characters in their order. -/
def isRange (low high : PatternAtom) : Bool :=
  match low.char?, high.char? with
  | some low, some high => low ≤ high
  | _, _ => false

namespace PatternMode

/-- The character that decides whether a dash in front of a text makes a range.  Blanks and the mark of a
comment are passed over, but not the comment itself. -/
def beyondDash? (mode : PatternMode) (text : List Char) : Option Char :=
  if mode.spaced then
    match text.dropWhile isBlank with
    | '#' :: rest => (rest.dropWhile isBlank).head?
    | rest => rest.head?
  else text.head?

/-- Whether a text, after an atom, goes on with a dash and the upper end of a range. -/
def goesOn (mode : PatternMode) : List Char → Bool
  | '-' :: rest => mode.beyondDash? rest ≠ some ']' && mode.beyondDash? rest ≠ some '-'
  | _ => false

/-- Reads an atom of a class or a range. -/
def readItem? (mode : PatternMode) (text : List Char) : Option (List Char) := do
  let (low, rest) ← mode.readMember? text
  if !mode.allowsInClass low then none
  else
    let rest := mode.skip rest
    if mode.goesOn rest then
      let (high, rest) ← mode.readMember? (mode.skip rest.tail)
      if mode.allowsInClass high && isRange low high then some rest else none
    else some rest

/-- Reads the mark of a class that stands for all other characters.  There is none in the mode of bytes. -/
def readNegation? (mode : PatternMode) (text : List Char) : Option (List Char) :=
  match mode.skip text with
  | '^' :: rest => if mode.unicode then some rest else none
  | rest => some rest

/-- Reads on in a class and those around it, the innermost first, up to the end of the outermost one. -/
def readMembers? (mode : PatternMode) :
    Nat → ClassReader → List ClassReader → List Char → Option (Nat × List Char)
  | 0, _, _, _ => none
  | fuel + 1, r, outer, text =>
    let single (r : ClassReader) (atom : PatternAtom) (rest : List Char) : Option (Nat × List Char) :=
      if mode.allowsInClass atom then mode.readMembers? fuel r outer rest else none
    let item (text : List Char) : Option (Nat × List Char) :=
      (mode.readItem? text).bind fun rest => mode.readMembers? fuel (r.add 0) outer rest
    match mode.skip text with
    | [] => none
    | '[' :: rest =>
      match readNamed? rest with
      | some (atom, rest) => single (r.add 0) atom rest
      | none =>
        (mode.readNegation? rest).bind fun rest =>
          mode.readMembers? fuel {} ({ r with opening := false } :: outer) rest
    | ']' :: rest =>
      if r.opening && r.members.isEmpty then single (r.add 0) (.char ']') rest
      else
        match outer with
        | [] => some (1 + r.depth, rest)
        | parent :: outer => mode.readMembers? fuel (parent.add (1 + r.depth)) outer rest
    | '-' :: rest =>
      if r.opening then single { r.add 0 with opening := true } (.char '-') rest
      else
        match rest with
        | '-' :: rest => mode.readMembers? fuel r.operator outer rest
        | _ => item ('-' :: rest)
    | '&' :: '&' :: rest => mode.readMembers? fuel r.operator outer rest
    | '~' :: '~' :: rest => mode.readMembers? fuel r.operator outer rest
    | text => item text

/-- Reads a class, after its bracket, with its depth. -/
def readClass? (mode : PatternMode) (text : List Char) : Option (Nat × List Char) :=
  (mode.readNegation? text).bind fun rest => mode.readMembers? (rest.length + 1) {} [] rest

end PatternMode

end RoutedCache

import RoutedCache.Log.Pattern.Class
import RoutedCache.Text.Alphanumeric

/-!
# Patterns

A pattern describes texts by atoms and classes of characters, by repetition, alternatives and groups.
`isPattern` tells the well-formed ones: a reader goes over the text, keeps what is open, and stops at the
first thing that does not fit.  Groups may change the mode for what lies in them.  Counted repetitions are not
among what it takes, and at most 250 constructs lie within each other.
-/

namespace RoutedCache

/-- A group, or the whole pattern, of which a part has been read. -/
structure PatternGroup where
  /-- The mode in front of the group, which returns after it. -/
  around : PatternMode := {}
  /-- The depths of the alternatives that are complete. -/
  alternatives : List Nat := []
  /-- The depths of the pieces of the last alternative, the latest first. -/
  pieces : List Nat := []
  /-- Whether the latest piece is one that can be repeated. -/
  repeatable : Bool := false
deriving DecidableEq, Repr

namespace PatternGroup

def add (g : PatternGroup) (depth : Nat) : PatternGroup :=
  { g with pieces := depth :: g.pieces, repeatable := true }

def nextAlternative (g : PatternGroup) : PatternGroup :=
  { g with alternatives := depthOfAll g.pieces :: g.alternatives, pieces := [], repeatable := false }

def depth (g : PatternGroup) : Nat := depthOfAll g.nextAlternative.alternatives

end PatternGroup

structure PatternReader where
  mode : PatternMode := {}
  /-- The names of the groups. -/
  names : List (List Char) := []
  /-- The innermost group that is open. -/
  group : PatternGroup := {}
  /-- The groups around it, the innermost first. -/
  outer : List PatternGroup := []
deriving DecidableEq, Repr

namespace PatternMode

/-- A flag after a change: those in front of a dash are set and those behind it are not. -/
def flagAfter (flags : List Char) (flag : Char) (old : Bool) : Bool :=
  if (flags.takeWhile (· ≠ '-')).contains flag then true
  else if flags.contains flag then false
  else old

/-- The mode after a change.  No flag comes twice and a dash has flags behind it. -/
def change? (mode : PatternMode) (flags : List Char) : Option PatternMode :=
  if flags.all ("imsUuRx-".contains ·) && decide flags.Nodup && flags.getLast? ≠ some '-' then
    some
      { unicode := flagAfter flags 'u' mode.unicode
        caseless := flagAfter flags 'i' mode.caseless
        spaced := flagAfter flags 'x' mode.spaced }
  else none

end PatternMode

/-- The name of a group begins with a letter or an underscore. -/
def isGroupName : List Char → Bool
  | [] => false
  | c :: rest => (c = '_' || isAlphabetic c) && rest.all fun c => isAlphanumeric c || "_.[]".contains c

namespace PatternReader

def add (r : PatternReader) (depth : Nat) : PatternReader := { r with group := r.group.add depth }

/-- Opens a group with a mode of its own. -/
def openGroup (r : PatternReader) (mode : PatternMode) : PatternReader :=
  { r with mode, group := { around := r.mode }, outer := r.group :: r.outer }

def closeGroup? (r : PatternReader) : Option PatternReader :=
  match r.outer with
  | [] => none
  | parent :: outer =>
    some { r with mode := r.group.around, group := parent.add (1 + r.group.depth), outer }

/-- Changes the mode up to the end of the group. -/
def changeMode (r : PatternReader) (mode : PatternMode) : PatternReader :=
  { r with mode, group := { r.group.add 0 with repeatable := false } }

def repeat? (r : PatternReader) : Option PatternReader :=
  match r.group.pieces, r.group.repeatable with
  | depth :: pieces, true => some { r with group := { r.group with pieces := (1 + depth) :: pieces } }
  | _, _ => none

/-- Opens a group after the mark of its name. -/
def openNamed? (r : PatternReader) (text : List Char) : Option (PatternReader × List Char) :=
  let name := text.takeWhile (· ≠ '>')
  match text.drop name.length with
  | [] => none
  | _ :: rest =>
    if isGroupName name && !r.names.contains name then
      some ({ r.openGroup r.mode with names := name :: r.names }, rest)
    else none

/-- Reads flags, for a group if a colon follows and else for what comes next. -/
def readFlags? (r : PatternReader) (text : List Char) : Option (PatternReader × List Char) :=
  let flags := text.takeWhile fun c => c ≠ ':' && c ≠ ')'
  (r.mode.change? flags).bind fun mode =>
    match text.drop flags.length with
    | ':' :: rest => some (r.openGroup mode, rest)
    | ')' :: rest => if flags.isEmpty then none else some (r.changeMode mode, rest)
    | _ => none

/-- Reads what follows an opening parenthesis. -/
def readGroup? (r : PatternReader) (text : List Char) : Option (PatternReader × List Char) :=
  match r.mode.skip text with
  | '?' :: 'P' :: '<' :: rest => r.openNamed? rest
  | '?' :: '<' :: rest => r.openNamed? rest
  | '?' :: rest => r.readFlags? rest
  | rest => some (r.openGroup r.mode, rest)

/-- Reads on by one piece or mark.  A question mark right after a repetition belongs to it. -/
def read? (r : PatternReader) (text : List Char) : Option (PatternReader × List Char) :=
  match text with
  | '(' :: rest => r.readGroup? rest
  | ')' :: rest => r.closeGroup?.map (·, rest)
  | '|' :: rest => some ({ r with group := r.group.nextAlternative }, rest)
  | '[' :: rest => (r.mode.readClass? rest).map fun (depth, rest) => (r.add depth, rest)
  | '\x7b' :: _ => none
  | c :: rest =>
    if c = '*' || c = '+' || c = '?' then
      r.repeat?.map (·, if rest.head? = some '?' then rest.tail else rest)
    else
      match r.mode.readAtom? (c :: rest) with
      | some (atom, rest) => if r.mode.allows atom then some (r.add 0, rest) else none
      | none => none
  | [] => none

/-- Reads up to the end of the text. -/
def readAll? : Nat → PatternReader → List Char → Option PatternReader
  | 0, _, _ => none
  | fuel + 1, r, text =>
    match r.mode.skip text with
    | [] => some r
    | text => (r.read? text).bind fun (r, rest) => readAll? fuel r rest

/-- How many constructs may lie within each other. -/
def deepest : Nat := 250

def complete (r : PatternReader) : Bool := r.outer.isEmpty && r.group.depth ≤ deepest

end PatternReader

def isPattern (text : List Char) : Bool :=
  (PatternReader.readAll? (text.length + 1) {} text).any PatternReader.complete

end RoutedCache

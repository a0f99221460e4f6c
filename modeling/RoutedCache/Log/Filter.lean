import RoutedCache.Bytes
import RoutedCache.Log
import RoutedCache.Log.Pattern
import RoutedCache.Text.Blank
import RoutedCache.Text.Digits
import RoutedCache.Text.Number

/-!
# Log filters

A filter is a list of directives with commas between them.  A directive is a level for everything, or it names
a target, a span with perhaps a field, and the highest level that it shows:

    level        target        target=level        target[span{field=pattern}]=level

A directive is read without the blanks around it, but its parts are cut out of the text as it is written, at
the places where they were found: blanks in front shift the parts.  Lines are written outside of all spans and
have the field `message` alone, so a directive with a span or with the value of a field shows no line.
-/

namespace RoutedCache

/-- Shows the levels up to the rank, for the targets that begin with the given one and for lines that have the
given field. -/
structure LogDirective where
  target : Option String := none
  field : Option String := none
  rank : Nat
deriving DecidableEq, Repr

abbrev LogFilter := List LogDirective

/-- Why a text is no filter. -/
inductive FilterFault where
  | malformed
  /-- A part would begin or end inside a character.  This stops the program. -/
  | torn
deriving DecidableEq, Repr

namespace LogDirective

def covers (directive : LogDirective) (line : LogLine) : Bool :=
  directive.target.all (fun target => target.toList.isPrefixOf line.target.toList) &&
    directive.field.all (· = "message")

/-- The bytes of a target with one more for having it. -/
def weight (directive : LogDirective) : Nat :=
  match directive.target with
  | none => 0
  | some target => target.utf8ByteSize + 1

/-- Whether the directive decides about a line that both cover: the longer target does, then the one with a
field, and of two equal ones the later one, which is the second. -/
def yields (directive later : LogDirective) : Bool :=
  directive.weight < later.weight ||
    directive.weight = later.weight && (directive.field.isNone || later.field.isSome)

end LogDirective

namespace LogFilter

/-- The rank of a level, 0 for none: a name in any case or a number up to 5. -/
def rank? (text : String) : Option Nat :=
  match ["off", "error", "warn", "info", "debug", "trace"].findIdx? fun name =>
      name.toList = text.toList.map Char.toLower with
  | some rank => some rank
  | none => (readWord? text).filter (· ≤ 5)

/-- Whether no character of a written text goes across the place, given in bytes. -/
def isEdge (written : Bytes) (place : Nat) : Bool :=
  match written[place]? with
  | none => true
  | some byte => byte < 128 || 192 ≤ byte

/-- The text between two places of a written directive; up to the end without the second one. -/
def cut (written : Bytes) (start : Nat) (stop : Option Nat) : Except FilterFault String :=
  let stop := stop.getD written.length
  if isEdge written start && isEdge written stop then
    (Bytes.text? ((written.take stop).drop start)).elim (.error .torn) .ok
  else .error .torn

def width (chars : List Char) : Nat := chars.foldl (· + ·.utf8Size) 0

/-- Whether a directive without a span in front may begin with the character. -/
def opensTarget (c : Char) : Bool := isAlphanumeric c || c = '-' || c = ':' || c = '_'

/-- The level from a place on; without one everything is shown. -/
def rankFrom (written : Bytes) (start : Nat) : Except FilterFault Nat := do
  let text ← cut written start none
  if text = "" then .ok LogLevel.trace.rank else (rank? text).elim (.error .malformed) .ok

/-- The level after a span. -/
def rankAfter (written : Bytes) (place : Nat) : List Char → Except FilterFault Nat
  | [] => .ok LogLevel.trace.rank
  | '=' :: _ => rankFrom written (place + 1)
  | _ => .error .malformed

/-- The name of a field that has no value, nothing if it has one. -/
def field? (text : String) : Option (Option String) :=
  match text.splitOn "=" with
  | [] => none
  | [name] => some (some name)
  | _ :: value :: _ => if isNumber value.toList || isPattern value.toList then some none else none

/-- The directive of a span with a field that begins at a place, after its brace. -/
def fieldDirective (written : Bytes) (target : Option String) (named : Bool) (place : Nat)
    (rest : List Char) : Except FilterFault LogFilter := do
  let inner := rest.takeWhile (· ≠ '\x7d')
  let stop := place + width inner
  match rest.drop inner.length with
  | [] => .error .malformed
  | _ :: rest =>
    let text ← cut written place (some stop)
    let field ← if text = "" then .error .malformed else (field? text).elim (.error .malformed) .ok
    match rest with
    | ']' :: rest =>
      let rank ← rankAfter written (stop + 2) rest
      .ok (if named || field.isNone then [] else [{ target, field, rank }])
    | _ => .error .malformed

/-- The directive of a span that begins at a place, after its bracket. -/
def spanDirective (written : Bytes) (target : Option String) (place : Nat) (rest : List Char) :
    Except FilterFault LogFilter := do
  let name := rest.takeWhile fun c => c ≠ ']' && c ≠ '\x7b'
  let stop := place + width name
  match rest.drop name.length with
  | [] => .error .malformed
  | mark :: rest =>
    let text ← cut written place (some stop)
    if mark = ']' then
      let _ ← rankAfter written (stop + 1) rest
      .ok []
    else fieldDirective written target (text ≠ "") (stop + 1) rest

/-- The directives of one written directive: one or, if it shows nothing, none at all. -/
def directive (text : String) : Except FilterFault LogFilter := do
  let written := utf8 text
  let chars := ((text.toList.dropWhile isBlank).reverse.dropWhile isBlank).reverse
  let word := chars.takeWhile fun c => c ≠ '=' && c ≠ '['
  let place := width word
  if !chars.head?.any fun first => first = '[' || opensTarget first then .error .malformed
  else
    match chars.drop word.length with
    | [] =>
      match rank? text with
      | some rank => .ok [{ rank }]
      | none => .ok [{ target := some text, rank := LogLevel.trace.rank }]
    | mark :: rest =>
      if word.isEmpty then spanDirective written none (place + 1) rest
      else
        let target ← cut written 0 (some place)
        if mark = '=' then
          let rank ← rankFrom written (place + 1)
          .ok [{ target := some target, rank }]
        else spanDirective written (some target) (place + 1) rest

/-- The filter of a text.  Without a directive only errors are shown. -/
def parse (text : String) : Except FilterFault LogFilter := do
  let parts := (text.splitOn ",").filter (· ≠ "")
  if parts.isEmpty then .ok [{ rank := LogLevel.error.rank }]
  else
    let directives ← parts.mapM directive
    .ok directives.flatten

/-- The directive that decides about a line. -/
def decisive? (filter : LogFilter) (line : LogLine) : Option LogDirective :=
  filter.foldl (fun best directive =>
    if !directive.covers line then best
    else
      match best with
      | none => some directive
      | some other => if other.yields directive then some directive else best) none

def shows (filter : LogFilter) (line : LogLine) : Bool :=
  (filter.decisive? line).any fun directive => line.level.rank ≤ directive.rank

end LogFilter

end RoutedCache

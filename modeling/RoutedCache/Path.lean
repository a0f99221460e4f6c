/-!
# Paths

A path is a text of names with slashes between them.  It leads from the root if it starts with a slash, and
else from the folder in which the program runs.  Where it leads to does not depend on how many slashes stand
between two names, but how long it is does; so a path keeps its text.  A place is where a path leads to: the
names on the way from the root, without detours.
-/

namespace RoutedCache

abbrev Place := List String

structure Path where
  fromRoot : Bool
  /-- What stands between the slashes; between two slashes in a row stands the empty text. -/
  parts : List String
deriving DecidableEq, Repr

/-- Why a path does not lead where it should. -/
inductive PathFault where
  | missing
  | notFolder
  | occupied
  | isFolder
  | tooLong
  /-- A name holds the character NUL. -/
  | unspeakable
  /-- A device cannot be given a length. -/
  | unfit
deriving DecidableEq, Repr

def PathFault.message : PathFault → String
  | missing => "No such file or directory (os error 2)"
  | notFolder => "Not a directory (os error 20)"
  | occupied => "File exists (os error 17)"
  | isFolder => "Is a directory (os error 21)"
  | tooLong => "File name too long (os error 36)"
  | unspeakable => "file name contained an unexpected NUL byte"
  | unfit => "Invalid argument (os error 22)"

namespace Path

def ofText (text : String) : Path :=
  match text.splitOn "/" with
  | "" :: part :: rest => { fromRoot := true, parts := part :: rest }
  | parts => { fromRoot := false, parts }

def text (path : Path) : String := (if path.fromRoot then "/" else "") ++ "/".intercalate path.parts

/-- The names as they are written, `.` and `..` included. -/
def names (path : Path) : List String := path.parts.filter (· ≠ "")

/-- Whether a slash follows the last name. -/
def closed (path : Path) : Bool := path.parts.getLast? = some ""

/-- Whether a part takes a path nowhere. -/
def isIdle (part : String) : Bool := part = "" || part = "."

/-- The parts up to the last step, the latest first. -/
def latestParts (path : Path) : List String := path.parts.reverse.dropWhile isIdle

/-- The longest name and the longest text in bytes. -/
def longestName : Nat := 255

def longest : Nat := 4095

/-- What is wrong with the text of a path, wherever it leads. -/
def fault? (path : Path) : Option PathFault :=
  if path.parts.any fun part => part.contains '\x00' then some .unspeakable
  else if longest < path.text.utf8ByteSize then some .tooLong
  else none

end Path

end RoutedCache

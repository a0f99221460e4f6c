/-!
# Keys

A key is a path whose parts are separated by slashes.  Slashes at its ends do not count, and its first part,
the leading segment, selects the mount that serves it.
-/

namespace RoutedCache

/-- The text without slashes at its ends. -/
def trimSlashes (text : String) : String :=
  String.ofList ((text.toList.dropWhile (· = '/')).reverse.dropWhile (· = '/')).reverse

def leadingSegment (key : String) : String :=
  String.ofList ((trimSlashes key).toList.takeWhile (· ≠ '/'))

def startsWith (start text : String) : Bool := start.toList.isPrefixOf text.toList

def occursAt (part : List Char) : List Char → Bool
  | [] => part.isEmpty
  | c :: rest => part.isPrefixOf (c :: rest) || occursAt part rest

/-- Whether `part` occurs in the text. -/
def occursIn (part text : String) : Bool := occursAt part.toList text.toList

/-- The longest key, in bytes of its UTF-8 form. -/
def maxKeySize : Nat := 1024

inductive KeyFault where
  | empty
  | tooLong
  | described (text : String)
deriving DecidableEq, Repr

def KeyFault.message : KeyFault → String
  | .empty => "key is empty"
  | .tooLong => s!"key exceeds maximum length of {maxKeySize} bytes"
  | .described text => text

/-- The key under which a record is stored. -/
def normalizeKey (key : String) : Except KeyFault String :=
  let trimmed := trimSlashes key
  if trimmed = "" then .error .empty
  else if maxKeySize < trimmed.utf8ByteSize then .error .tooLong
  else .ok trimmed

end RoutedCache

import RoutedCache.Text.Lines

/-!
# Log lines

A line has a level, the target that says where it comes from, and a message.  On a terminal some characters of
a message would act instead of being shown; they are written by their codes.
-/

namespace RoutedCache

inductive LogLevel where
  | error | warn | info | debug | trace
deriving DecidableEq, Repr

namespace LogLevel

/-- How much is shown up to the level; 0 is left for nothing at all. -/
def rank : LogLevel → Nat
  | error => 1
  | warn => 2
  | info => 3
  | debug => 4
  | trace => 5

def name : LogLevel → String
  | error => "ERROR"
  | warn => "WARN"
  | info => "INFO"
  | debug => "DEBUG"
  | trace => "TRACE"

end LogLevel

structure LogLine where
  level : LogLevel
  target : String
  message : String
deriving DecidableEq, Repr

namespace LogLine

/-- Bell, backspace, form feed, escape and delete have two digits; the later controls have theirs in braces. -/
def visible (c : Char) : List Char :=
  let digits := Nat.toDigits 16 c.toNat
  if [7, 8, 12, 27, 127].contains c.toNat then
    '\\' :: 'x' :: List.replicate (2 - digits.length) '0' ++ digits
  else if 128 ≤ c.toNat && c.toNat ≤ 159 then '\\' :: 'u' :: '\x7b' :: digits ++ ['\x7d']
  else [c]

def text (line : LogLine) : String :=
  line.level.name ++ " " ++ line.target ++ ": " ++ String.ofList (line.message.toList.flatMap visible)

def lines (line : LogLine) : List String := linesOf line.text

end LogLine

end RoutedCache

import RoutedCache.Text.GraphemeExtend
import RoutedCache.Text.Unprintable

/-!
# Quoted text

Messages show a text between quotes.  Quotes, backslashes, tabs, line ends and NUL have short escapes; any
other character that has no visible form or joins the character before it is shown by its code point.
-/

namespace RoutedCache

def codePointEscape (c : Char) : List Char :=
  ['\\', 'u', '\x7b'] ++ Nat.toDigits 16 c.toNat ++ ['\x7d']

def quotedChar (c : Char) : List Char :=
  if c = '\x00' then ['\\', '0']
  else if c = '\t' then ['\\', 't']
  else if c = '\r' then ['\\', 'r']
  else if c = '\n' then ['\\', 'n']
  else if c = '\\' then ['\\', '\\']
  else if c = '"' then ['\\', '"']
  else if extendsGrapheme c || !isPrintable c then codePointEscape c
  else [c]

def quote (text : String) : String := String.ofList ('"' :: text.toList.flatMap quotedChar ++ ['"'])

/-- The quoted texts between brackets. -/
def quoteList (texts : List String) : String := "[" ++ ", ".intercalate (texts.map quote) ++ "]"

end RoutedCache

import RoutedCache.Bytes

/-!
# Writing JSON

Texts are written byte by byte: quotes, backslashes and control characters are escaped, all other bytes
stand for themselves.  Objects have no white space and keep the order of their members.
-/

namespace RoutedCache.Json

def hexDigit (n : Nat) : UInt8 := (if n < 10 then 48 + n else 87 + n).toUInt8

def escapeByte (b : UInt8) : Bytes :=
  if b = 0x22 then [0x5C, 0x22]
  else if b = 0x5C then [0x5C, 0x5C]
  else if b = 0x08 then [0x5C, 0x62]
  else if b = 0x0C then [0x5C, 0x66]
  else if b = 0x0A then [0x5C, 0x6E]
  else if b = 0x0D then [0x5C, 0x72]
  else if b = 0x09 then [0x5C, 0x74]
  else if b < 0x20 then [0x5C, 0x75, 0x30, 0x30, hexDigit (b.toNat / 16), hexDigit (b.toNat % 16)]
  else [b]

/-- The text with these UTF-8 bytes between quotes. -/
def quoted (bytes : Bytes) : Bytes := 0x22 :: (bytes.flatMap escapeByte ++ [0x22])

def nullText : Bytes := utf8 "null"

def boolText (b : Bool) : Bytes := if b then utf8 "true" else utf8 "false"

def naturalText (n : Nat) : Bytes := asciiBytes (Nat.toDigits 10 n)

def memberText (name : String) (value : Bytes) : Bytes := quoted (utf8 name) ++ 0x3A :: value

/-- The members one after the other, with commas between them. -/
def joined : List Bytes → Bytes
  | [] => []
  | [text] => text
  | text :: rest => text ++ 0x2C :: joined rest

/-- An object with written values. -/
def objectText (members : List (String × Bytes)) : Bytes :=
  0x7B :: (joined (members.map fun member => memberText member.1 member.2) ++ [0x7D])

end RoutedCache.Json

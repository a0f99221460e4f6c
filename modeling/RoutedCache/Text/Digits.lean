/-!
# Decimal digits

`fixedDigits` writes a number with a given count of digits and `ofDigits` reads digits back.  Only the ASCII
digits count as digits.
-/

namespace RoutedCache

def digitChar (n : Nat) : Char := Char.ofNat (48 + n % 10)

/-- The last `count` digits of the number. -/
def fixedDigits : Nat → Nat → List Char
  | 0, _ => []
  | count + 1, n => fixedDigits count (n / 10) ++ [digitChar n]

/-- The number with leading zeros up to the given width. -/
def paddedDigits (width n : Nat) : List Char :=
  let digits := Nat.toDigits 10 n
  List.replicate (width - digits.length) '0' ++ digits

def digitValue (c : Char) : Nat := c.toNat - 48

def ofDigits (digits : List Char) : Nat := digits.foldl (fun n c => 10 * n + digitValue c) 0

/-- Reads an unsigned number below 2^64: digits, perhaps after a plus sign. -/
def readWord? (text : String) : Option Nat :=
  let digits := match text.toList with
    | '+' :: rest => rest
    | cs => cs
  if digits.isEmpty || !digits.all Char.isDigit then none
  else if ofDigits digits < Nat.pow 2 64 then some (ofDigits digits) else none

end RoutedCache

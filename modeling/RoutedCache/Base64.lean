import RoutedCache.Bytes

/-!
# Base64

The encoding writes three bytes as four letters and fills the last group up with `=`.  The decoder accepts
exactly the written form of some bytes: the padding is required and the unused bits of the last letter have
to be zero.
-/

namespace RoutedCache.Base64

/-- The 64 letters of the alphabet by value. -/
def letter (value : Nat) : UInt8 :=
  (if value < 26 then 65 + value
  else if value < 52 then 71 + value
  else if value < 62 then value - 4
  else if value = 62 then 43 else 47).toUInt8

def value? (letter : UInt8) : Option Nat :=
  let n := letter.toNat
  if 65 ≤ n ∧ n ≤ 90 then some (n - 65)
  else if 97 ≤ n ∧ n ≤ 122 then some (n - 71)
  else if 48 ≤ n ∧ n ≤ 57 then some (n + 4)
  else if n = 43 then some 62
  else if n = 47 then some 63
  else none

def pad : UInt8 := 61

def encode : Bytes → Bytes
  | [] => []
  | [a] => [letter (a.toNat / 4), letter (a.toNat % 4 * 16), pad, pad]
  | [a, b] =>
    [letter (a.toNat / 4), letter (a.toNat % 4 * 16 + b.toNat / 16), letter (b.toNat % 16 * 4), pad]
  | a :: b :: c :: rest =>
    letter (a.toNat / 4) :: letter (a.toNat % 4 * 16 + b.toNat / 16) ::
      letter (b.toNat % 16 * 4 + c.toNat / 64) :: letter (c.toNat % 64) :: encode rest

/-- The one byte of a last group with two pads. -/
def decodeOne? (p q : UInt8) : Option Bytes := do
  let x ← value? p
  let y ← value? q
  if y % 16 = 0 then some [(x * 4 + y / 16).toUInt8] else none

/-- The two bytes of a last group with one pad. -/
def decodeTwo? (p q r : UInt8) : Option Bytes := do
  let x ← value? p
  let y ← value? q
  let z ← value? r
  if z % 4 = 0 then some [(x * 4 + y / 16).toUInt8, (y % 16 * 16 + z / 4).toUInt8] else none

def decodeThree? (p q r s : UInt8) : Option Bytes := do
  let x ← value? p
  let y ← value? q
  let z ← value? r
  let w ← value? s
  some [(x * 4 + y / 16).toUInt8, (y % 16 * 16 + z / 4).toUInt8, (z % 4 * 64 + w).toUInt8]

def decode? : Bytes → Option Bytes
  | [] => some []
  | [p, q, r, s] =>
    if s = pad then (if r = pad then decodeOne? p q else decodeTwo? p q r) else decodeThree? p q r s
  | p :: q :: r :: s :: rest => do
    let group ← decodeThree? p q r s
    let bytes ← decode? rest
    some (group ++ bytes)
  | _ => none

end RoutedCache.Base64

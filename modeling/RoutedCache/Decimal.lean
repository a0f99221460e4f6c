import RoutedCache.Text.Digits

/-!
# Shortest decimals

`shortest` gives the decimal with the fewest digits that reads back as a given binary floating-point number,
and the nearest one of those.  The numbers that read back form an interval around the binary one, whose ends
belong to it iff the mantissa is even.  If a decimal grid has a point in the interval, one of the two grid
points next to the number lies in it.
-/

namespace RoutedCache

/-- The number `digits · 10^exponent`. -/
structure Decimal where
  digits : Nat
  exponent : Int
deriving DecidableEq, Repr

namespace Decimal

/-- A positive number `value / unit` with the bounds of the numbers that read back as it. -/
structure Rounding where
  low : Nat
  value : Nat
  high : Nat
  unit : Nat
  closed : Bool

/-- The interval of the binary number `mantissa · 2^exponent`; `lowest` says that it is the first number
after a change of the exponent, where the next number below is half as far away. -/
def Rounding.ofBinary (mantissa : Nat) (exponent : Int) (lowest : Bool) : Rounding :=
  let scale := Nat.pow 2 (exponent - 2).toNat
  { low := (4 * mantissa - if lowest then 1 else 2) * scale
    value := 4 * mantissa * scale
    high := (4 * mantissa + 2) * scale
    unit := Nat.pow 2 (2 - exponent).toNat
    closed := mantissa % 2 == 0 }

/-- The interval of a positive finite number. -/
def Rounding.ofFloat (x : Float) : Rounding :=
  let bits := x.toBits.toNat
  let fraction := bits % Nat.pow 2 52
  let biased : Nat := bits / Nat.pow 2 52 % 2048
  if biased = 0 then ofBinary fraction (-1074) false
  else ofBinary (Nat.pow 2 52 + fraction) ((biased : Int) - 1075) (fraction = 0 ∧ 1 < biased)

/-- The exponent of the first decimal digit of `n / d`. -/
def leadExponent (n d : Nat) : Int :=
  let estimate : Int := (Nat.toDigits 10 n).length - (Nat.toDigits 10 d).length
  if n * Nat.pow 10 (-estimate).toNat < d * Nat.pow 10 estimate.toNat then estimate - 1 else estimate

/-- The nearer one of the two points of the grid of step `10^exponent` next to the number, if it reads back.
-/
def onGrid? (r : Rounding) (exponent : Int) : Option Decimal :=
  let up := Nat.pow 10 (-exponent).toNat
  let step := Nat.pow 10 exponent.toNat * r.unit
  let below := r.value * up / step
  let inside (n : Nat) : Bool :=
    if r.closed then r.low * up ≤ n * step && n * step ≤ r.high * up
    else r.low * up < n * step && n * step < r.high * up
  let nearBelow : Bool := 2 * (r.value * up - below * step) ≤ step
  if inside below && (nearBelow || !inside (below + 1)) then some ⟨below, exponent⟩
  else if inside (below + 1) then some ⟨below + 1, exponent⟩
  else none

def shortest (x : Float) : Decimal :=
  if x.toBits.toNat % Nat.pow 2 63 = 0 then ⟨0, 0⟩
  else
    let r := Rounding.ofFloat x
    let lead := leadExponent r.value r.unit
    ((List.range 18).findSome? fun (count : Nat) => onGrid? r (lead + 1 - count)).getD ⟨r.value / r.unit, 0⟩

/-- The digits with a point: positional from 10^-5 up to 10^16, with an exponent outside. -/
def text (d : Decimal) : String :=
  let digits := Nat.toDigits 10 d.digits
  let point : Int := digits.length + d.exponent
  if d.digits = 0 then "0.0"
  else String.ofList (
    if 0 ≤ d.exponent ∧ point ≤ 16 then digits ++ List.replicate d.exponent.toNat '0' ++ ['.', '0']
    else if 0 < point ∧ point ≤ 16 then digits.take point.toNat ++ '.' :: digits.drop point.toNat
    else if -5 < point ∧ point ≤ 0 then ['0', '.'] ++ List.replicate (-point).toNat '0' ++ digits
    else
      let rest := digits.drop 1
      digits.take 1 ++ (if rest.isEmpty then [] else '.' :: rest) ++ 'e' :: (toString (point - 1)).toList)

end Decimal

end RoutedCache

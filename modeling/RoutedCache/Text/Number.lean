/-!
# Texts of numbers

A number is written with or without a sign, a fraction and an exponent, or by a name.
-/

namespace RoutedCache

/-- A number with or without a fraction and an exponent, an infinity, or what is no number. -/
def isNumber (text : List Char) : Bool :=
  let dropSign : List Char → List Char
    | '+' :: rest => rest
    | '-' :: rest => rest
    | rest => rest
  let unsigned := (dropSign text).map Char.toLower
  let whole := unsigned.takeWhile Char.isDigit
  let afterWhole := unsigned.drop whole.length
  let (fraction, rest) := match afterWhole with
    | '.' :: rest => (rest.takeWhile Char.isDigit, rest.dropWhile Char.isDigit)
    | rest => ([], rest)
  let exponentFits := match rest with
    | [] => true
    | 'e' :: exponent => !(dropSign exponent).isEmpty && (dropSign exponent).all Char.isDigit
    | _ => false
  ["inf", "infinity", "nan"].contains (String.ofList unsigned) ||
    !(whole ++ fraction).isEmpty && exponentFits

end RoutedCache

import TypedResources.Number.Double
import TypedResources.Number.Integer

/-!
Reading floating-point numbers: decimal digits with an optional point and power of ten, or a word
for infinity or for no number at all.
-/

namespace TypedResources.Double

def exponent? : List Char → Option Int
  | [] => some 0
  | c :: rest =>
    let (negative, digits) := Number.signed rest
    if c.toLower ≠ 'e' ∨ digits.isEmpty then none
    else (Number.ofDigits? 10 digits).map fun n => if negative then -n else n

def fraction : List Char → List Char × List Char
  | '.' :: rest => (rest.takeWhile Number.isDecimalDigit, rest.dropWhile Number.isDecimalDigit)
  | cs => ([], cs)

def unsigned? (negative : Bool) (cs : List Char) : Option Double :=
  let lower := cs.map Char.toLower
  if lower = "inf".toList ∨ lower = "infinity".toList then some (infinite negative)
  else if lower = "nan".toList then some nan
  else
    let whole := cs.takeWhile Number.isDecimalDigit
    let (part, rest) := fraction (cs.dropWhile Number.isDecimalDigit)
    if (whole ++ part).isEmpty then none
    else do
      let digits ← Number.ofDigits? 10 (whole ++ part)
      let power ← exponent? rest
      return ofDecimal negative digits (power - part.length)

def ofText? (cs : List Char) : Option Double :=
  let (negative, body) := Number.signed (Number.bare cs)
  unsigned? negative body

end TypedResources.Double

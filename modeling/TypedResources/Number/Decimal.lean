import TypedResources.Number.Digits
import TypedResources.Number.Double

/-!
Floating-point numbers as decimal text: the fewest digits that read back as the same number, and of
those the nearest.
-/

namespace TypedResources.Double

/-- The power of ten just above a quotient: the quotient has that many digits before the point. -/
def scale (numerator denominator : Nat) : Int :=
  if denominator ≤ numerator then (Number.decimal (numerator / denominator)).length
  else
    match (List.range 400).find? fun k => denominator ≤ numerator * Nat.pow 10 (k + 1) with
    | some k => -k
    | none => 0

/-- A quotient times a power of ten, rounded down to a whole number. -/
def scaledFloor (numerator denominator : Nat) (power : Int) : Nat :=
  numerator * Nat.pow 10 power.toNat / (denominator * Nat.pow 10 (-power).toNat)

/-- Twice the distance from a point of the grid of a power of ten to its upper neighbour's middle,
compared with the quotient: whether the upper neighbour is nearer, or as near and even. -/
def prefersUpper (numerator denominator : Nat) (power : Int) (lower : Nat) : Bool :=
  let value := 2 * numerator * Nat.pow 10 power.toNat
  let middle := (2 * lower + 1) * (denominator * Nat.pow 10 (-power).toNat)
  middle < value || (middle = value && lower % 2 = 1)

/-- The digits of one length that read back as the magnitude, if there are any. -/
def digitsOfLength? (magnitude : Nat) (point : Int) (length : Nat) : Option Nat :=
  let power := length - point
  let lower := scaledFloor magnitude one power
  let readsBack := fun d => ofDecimal false d (-power) = finite false magnitude
  let ordered :=
    if prefersUpper magnitude one power lower then [lower + 1, lower] else [lower, lower + 1]
  ordered.find? readsBack

/-- The shortest digits of a magnitude, of which the point has the given place. -/
def shortest (magnitude : Nat) : List Char × Int :=
  let point := scale magnitude one
  let ofLength? := fun k => (digitsOfLength? magnitude point (k + 1)).map (·, k + 1)
  match (List.range 17).findSome? ofLength? with
  | some (digits, length) =>
    let text := Number.decimal digits
    (text, point + (text.length - length : Int))
  | none => ([], point)

def dropEndZeros (digits : List Char) : List Char := (digits.reverse.dropWhile (· = '0')).reverse

def positional (digits : List Char) (point : Int) : List Char :=
  if point ≤ 0 then "0.".toList ++ List.replicate (-point).toNat '0' ++ digits
  else
    let whole := digits.take point.toNat ++ List.replicate (point.toNat - digits.length) '0'
    let part := digits.drop point.toNat
    whole ++ '.' :: (if part.isEmpty then ['0'] else part)

/-- Digits with the point after the first, and the power of ten that this leaves over. -/
def scientific (digits : List Char) (point : Int) : List Char :=
  let part := digits.drop 1
  let power := point - 1
  digits.take 1 ++ (if part.isEmpty then [] else '.' :: part) ++
    ['e', if power < 0 then '-' else '+'] ++ Number.padded 2 power.natAbs

/-- The point stays among the digits when at most four zeros lead, or sixteen digits precede it. -/
def magnitudeText (magnitude : Nat) : List Char :=
  if magnitude = 0 then "0.0".toList
  else
    let (digits, point) := shortest magnitude
    let digits := dropEndZeros digits
    if -4 < point ∧ point ≤ 16 then positional digits point else scientific digits point

def text : Double → List Char
  | nan => "nan".toList
  | infinite negative => if negative then "-inf".toList else "inf".toList
  | finite negative m => (if negative then ['-'] else []) ++ magnitudeText m

end TypedResources.Double

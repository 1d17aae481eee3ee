/-!
Floating-point numbers of 53 binary places. A magnitude counts the smallest number above zero,
`2 ^ -1074`, so rounding is rounding of natural numbers.
-/

namespace TypedResources

/-- A floating-point number; magnitudes are those that 53 binary places can hold. -/
inductive Double
  | nan
  | infinite (negative : Bool)
  | finite (negative : Bool) (magnitude : Nat)
  deriving DecidableEq, Repr

namespace Double

def places : Nat := 53

def one : Nat := 1 <<< 1074

/-- The first magnitude that is too large. -/
def bound : Nat := 1 <<< 2098

def zero : Double := finite false 0

/-- A quotient rounded to the nearest number; of two equally near ones the even one is taken. -/
def nearest (numerator denominator : Nat) : Nat :=
  let quotient := numerator / denominator
  let twice := 2 * (numerator % denominator)
  if twice < denominator ∨ (twice = denominator ∧ quotient % 2 = 0) then quotient else quotient + 1

/-- How far the binary point moves so that a quotient keeps 53 places before it. -/
def excess (numerator denominator : Nat) : Nat :=
  (numerator / denominator).log2 + 1 - places

def rounded (numerator denominator : Nat) : Nat :=
  nearest numerator (denominator <<< excess numerator denominator) <<<
    excess numerator denominator

def ofUnits (negative : Bool) (numerator denominator : Nat) : Double :=
  if rounded numerator denominator < bound then finite negative (rounded numerator denominator)
  else infinite negative

def ofRatio (negative : Bool) (numerator denominator : Nat) : Double :=
  ofUnits negative (numerator * one) denominator

def ofNat (n : Nat) : Double := ofRatio false n 1

/-- The number nearest to `digits * 10 ^ exponent`. -/
def ofDecimal (negative : Bool) (digits : Nat) (exponent : Int) : Double :=
  if digits = 0 then finite negative 0
  else
    let size := (Nat.toDigits 10 digits).length + exponent
    if 310 < size then infinite negative
    else if size < -330 then finite negative 0
    else ofRatio negative (digits * Nat.pow 10 exponent.toNat) (Nat.pow 10 (-exponent).toNat)

def isZero (x : Double) : Bool :=
  match x with
  | finite _ m => m = 0
  | _ => false

def negate : Double → Double
  | nan => nan
  | infinite negative => infinite !negative
  | finite negative m => finite (!negative) m

def addFinite (s : Bool) (m : Nat) (t : Bool) (n : Nat) : Double :=
  if s = t then ofUnits s (m + n) 1
  else if m = n then zero
  else if n < m then finite s (rounded (m - n) 1)
  else finite t (rounded (n - m) 1)

def add : Double → Double → Double
  | finite s m, finite t n => addFinite s m t n
  | infinite s, infinite t => if s = t then infinite s else nan
  | infinite s, finite _ _ | finite _ _, infinite s => infinite s
  | _, _ => nan

def mul : Double → Double → Double
  | finite s m, finite t n => ofUnits (s != t) (m * n) one
  | infinite s, infinite t => infinite (s != t)
  | infinite s, finite t n | finite t n, infinite s => if n = 0 then nan else infinite (s != t)
  | _, _ => nan

def truncate? : Double → Option Int
  | finite negative m => some (if negative then -(m / one : Nat) else (m / one : Nat))
  | _ => none

end Double

end TypedResources

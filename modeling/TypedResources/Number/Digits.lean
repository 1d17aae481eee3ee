/-!
Digits, and the numbers that rows of them write.
-/

namespace TypedResources.Number

/-- Decimal texts of more digits than this are neither read nor written. -/
def maxDecimalDigits : Nat := 4300

def isDecimalDigit (c : Char) : Bool := '0' ≤ c && c ≤ '9'

/-- The value of an ASCII digit or letter, as far as bases go up. -/
def digit? (c : Char) : Option Nat :=
  if isDecimalDigit c then some (c.toNat - '0'.toNat)
  else if 'a' ≤ c && c ≤ 'z' then some (c.toNat - 'a'.toNat + 10)
  else if 'A' ≤ c && c ≤ 'Z' then some (c.toNat - 'A'.toNat + 10)
  else none

def digitIn? (base : Nat) (c : Char) : Option Nat := (digit? c).filter (· < base)

/-- The number that digits of a base write; `none` if one of them is no digit of it. -/
def ofDigits? (base : Nat) (cs : List Char) : Option Nat :=
  cs.foldlM (fun n c => (digitIn? base c).map fun d => base * n + d) 0

def decimal (n : Nat) : List Char := Nat.toDigits 10 n

/-- The decimal digits of a number, with zeros in front up to a width. -/
def padded (width n : Nat) : List Char :=
  List.replicate (width - (decimal n).length) '0' ++ decimal n

/-- The lower-case hexadecimal digits of a number, with zeros in front up to a width. -/
def paddedHex (width n : Nat) : List Char :=
  List.replicate (width - (Nat.toDigits 16 n).length) '0' ++ Nat.toDigits 16 n

end TypedResources.Number

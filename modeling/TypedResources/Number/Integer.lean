import TypedResources.Number.Digits
import TypedResources.Unicode.Blank
import TypedResources.Unicode.Digit

/-!
Reading whole numbers: a sign, perhaps the mark of the base, and digits of any script, between which
single underscores may stand. White space around all that is left out.
-/

namespace TypedResources.Number

/-- White space that may surround a number; the information separators may not. -/
def isMargin (c : Char) : Bool := Unicode.isBlank c && !(28 ≤ c.toNat && c.toNat ≤ 31)

def westernDigit (c : Char) : Char :=
  match Unicode.digitValue? c with
  | some d => Char.ofNat ('0'.toNat + d)
  | none => c

def bare (cs : List Char) : List Char :=
  (((cs.dropWhile isMargin).reverse.dropWhile isMargin).reverse).map westernDigit

/-- Whether a text begins with a minus sign, and the text without its sign. -/
def signed : List Char → Bool × List Char
  | '-' :: rest => (true, rest)
  | '+' :: rest => (false, rest)
  | cs => (false, cs)

def baseMark : Nat → Option Char
  | 2 => some 'b'
  | 8 => some 'o'
  | 16 => some 'x'
  | _ => none

def dropUnderscore : List Char → List Char
  | '_' :: rest => rest
  | cs => cs

def afterMark (base : Nat) : List Char → List Char
  | '0' :: c :: rest =>
    if baseMark base = some c.toLower then dropUnderscore rest else '0' :: c :: rest
  | cs => cs

/-- The number that groups of digits write; no group may be empty, nor a decimal one too long. -/
def ofGroups? (base : Nat) (groups : List (List Char)) : Option Nat :=
  if groups.any (·.isEmpty) || (base = 10 && maxDecimalDigits < groups.flatten.length) then none
  else ofDigits? base groups.flatten

def integer? (base : Nat) (cs : List Char) : Option Int :=
  let (negative, body) := signed (bare cs)
  (ofGroups? base ((afterMark base body).splitOn '_')).map fun n => if negative then -n else n

end TypedResources.Number

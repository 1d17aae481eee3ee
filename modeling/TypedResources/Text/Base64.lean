/-!
Bytes written in base 64. Characters that are no digits are passed over, and padding ends the text
as soon as it completes a group of four.
-/

namespace TypedResources.Base64

def digit? (c : Char) : Option Nat :=
  if 'A' ≤ c && c ≤ 'Z' then some (c.toNat - 'A'.toNat)
  else if 'a' ≤ c && c ≤ 'z' then some (c.toNat - 'a'.toNat + 26)
  else if '0' ≤ c && c ≤ '9' then some (c.toNat - '0'.toNat + 52)
  else if c = '+' then some 62
  else if c = '/' then some 63
  else none

/-- The digits since the last whole group, newest first, and the padding after them. -/
structure Group where
  digits : List Nat
  padding : Nat
  deriving DecidableEq, Repr

def completed (digits : List Nat) (d : Nat) : List UInt8 :=
  match digits with
  | [] => []
  | [a] => [(a * 4 + d / 16).toUInt8]
  | [b, _] => [((b % 16) * 16 + d / 4).toUInt8]
  | c :: _ => [((c % 4) * 64 + d).toUInt8]

def Group.add (g : Group) (d : Nat) : Group :=
  if g.digits.length = 3 then ⟨[], 0⟩ else ⟨d :: g.digits, 0⟩

/-- Whether one more sign of padding completes the group. -/
def Group.isPadded (g : Group) : Bool := 2 ≤ g.digits.length && 4 ≤ g.digits.length + g.padding + 1

/-- The bytes that a text writes after the given group; `none` if it ends inside of a group. -/
def bytesFrom (g : Group) : List Char → Option (List UInt8)
  | [] => if g.digits.isEmpty then some [] else none
  | c :: rest =>
    if c = '=' then
      if g.isPadded then some []
      else bytesFrom (if 2 ≤ g.digits.length then { g with padding := g.padding + 1 } else g) rest
    else
      match digit? c with
      | none => bytesFrom g rest
      | some d => (bytesFrom (g.add d) rest).map (completed g.digits d ++ ·)

def bytes? (cs : List Char) : Option (List UInt8) := bytesFrom ⟨[], 0⟩ cs

end TypedResources.Base64

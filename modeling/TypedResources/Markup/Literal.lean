import TypedResources.Markup.Name
import TypedResources.Markup.Text
import TypedResources.Number.Digits

/-!
References and quoted literals. A literal is kept as pieces, since a character that is written by a
reference is treated otherwise than the same character standing there itself.
-/

namespace TypedResources.Markup

inductive Piece
  | plain (c : Char)
  | coded (c : Char)
  | entity (name : String)
  deriving DecidableEq, Repr

def charOfCode? (n : Nat) : Option Char :=
  if h : n.isValidChar then (if isChar (Char.ofNatAux n h) then some (Char.ofNatAux n h) else none)
  else none

def Reader.charReference : Reader Char := do
  let hex ← optionalWord "x"
  let digits ← upTo ";"
  let code ← ofOption
    (Number.ofDigits? (if hex then 16 else 10) digits)
  ofOption (charOfCode? code)

def Reader.reference : Reader Piece := do
  if ← optionalWord "#" then
    return .coded (← charReference)
  else
    let entity ← name
    word ";"
    return .entity entity

/-- One piece, whose first character is given. -/
def Reader.piece (first : Char) : Reader Piece :=
  if first = '&' then reference else pure (.plain first)

def pieces? (cs : List Char) : Option (List Piece) :=
  (Reader.many (fun _ => true) Reader.piece).readAll cs

/-- The value of an attribute as written: no tag may begin in it. -/
def Reader.attributeLiteral : Reader (List Piece) := do
  let cs ← quoted
  require !cs.contains '<'
  ofOption (pieces? cs)

/-- What a piece of an entity's literal stands for: coded characters are decoded at once, references
to entities stay. -/
def Piece.replacement : Piece → List Char
  | .plain c | .coded c => [c]
  | .entity name => '&' :: name.toList ++ [';']

/-- The replacement text of an entity; references to parameters are not allowed here. -/
def Reader.entityLiteral : Reader (List Char) := do
  let cs ← quoted
  require !cs.contains '%'
  return (← ofOption (pieces? cs)).flatMap Piece.replacement

/-- The characters that five entities stand for without being declared. -/
def predefined? (entity : String) : Option Char :=
  [("lt", '<'), ("gt", '>'), ("amp", '&'), ("quot", '"'), ("apos", '\'')].lookup entity

/-- White space standing in an attribute value becomes spaces. -/
def Piece.spaced : Piece → Piece
  | .plain c => .plain (if Reader.isBlank c then ' ' else c)
  | piece => piece

def Piece.isSpace : Piece → Bool
  | .plain c | .coded c => c = ' '
  | .entity _ => false

def collapseSpaces : List Piece → List Piece
  | [] => []
  | [p] => [p]
  | p :: q :: rest =>
    if p.isSpace && q.isSpace then collapseSpaces (q :: rest) else p :: collapseSpaces (q :: rest)

/-- Spaces at both ends go, runs of spaces shrink. -/
def tokenize (value : List Piece) : List Piece :=
  let lead := value.dropWhile (·.isSpace)
  collapseSpaces ((lead.reverse.dropWhile (·.isSpace)).reverse)

end TypedResources.Markup

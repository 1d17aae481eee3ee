import TypedResources.Number.Digits
import TypedResources.Yaml.Cursor

/-!
Scalars in quotes. Line breaks inside them fold: one becomes a space, of several the first goes.
Between double quotes a backslash begins an escape.
-/

namespace TypedResources.Yaml.Scan

/-- Skip line breaks and the white space around them; the breaks after the first. -/
def foldedBreaks : Scan (List Char) := pieces do
  require !startsWithSeparator (← ahead)
  let _ ← takeWhile isSpaceOrTab
  return (← lineBreak).map ([·])

def fold (first : Char) (others : List Char) : List Char :=
  if first ≠ '\n' then first :: others else if others.isEmpty then [' '] else others

/-- White space inside quotes, folded if a line ends in it. -/
def quotedSpace : Scan (List Char) := do
  let spaces ← takeWhile isSpaceOrTab
  match ← lineBreak with
  | some c => return fold c (← foldedBreaks)
  | none => return spaces

def escapes : List (Char × Char) :=
  [('0', '\x00'), ('a', '\x07'), ('b', '\x08'), ('t', '\t'), ('\t', '\t'), ('n', '\n'),
    ('v', '\x0b'), ('f', '\x0c'), ('r', '\r'), ('e', '\x1b'), (' ', ' '), ('"', '"'),
    ('\\', '\\'), ('/', '/'), ('N', '\u0085'), ('_', '\u00a0'), ('L', '\u2028'),
    ('P', '\u2029')]

def escapeWidth? (c : Char) : Option Nat := [('x', 2), ('u', 4), ('U', 8)].lookup c

def charOfCode (n : Nat) : Scan Char :=
  if 0x80000000 ≤ n then throw .hugeCharacter
  else if 0x110000 ≤ n then throw .noCharacter
  else if h : n.isValidChar then return Char.ofNatAux n h
  else throw .surrogate

def codedChar (width : Nat) : Scan Char := do
  let digits := (← ahead).take width
  require (digits.length = width)
  match Number.ofDigits? 16 digits with
  | some n =>
    let c ← charOfCode n
    skip width
    return c
  | none => refuse

def escape : Scan (List Char) := do
  match ← ahead with
  | [] => refuse
  | c :: _ =>
    match escapes.lookup c, escapeWidth? c with
    | some x, _ =>
      skip 1
      return [x]
    | none, some width =>
      skip 1
      return [← codedChar width]
    | none, none =>
      if isBreak c then
        let _ ← lineBreak
        foldedBreaks
      else
        refuse

/-- The next piece of a scalar in quotes, or the closing quote. -/
def quotedPiece (quote : Char) : Scan (Option (List Char)) := do
  match ← ahead with
  | [] => refuse
  | c :: rest =>
    if c = quote then
      if quote = '\'' && rest.head? = some '\'' then
        skip 2
        return some [c]
      else
        skip 1
        return none
    else if c = '\\' && quote = '"' then
      skip 1
      return some (← escape)
    else if isSpaceOrTab c || isBreak c then
      return some (← quotedSpace)
    else
      let isOrdinary := fun x => x ≠ '\'' && x ≠ '"' && x ≠ '\\' && !isSpaceOrTab x && !isBreak x
      skip 1
      return some (c :: (← takeWhile isOrdinary))

def quoted (quote : Char) : Scan String := do
  skip 1
  return String.ofList (← pieces (quotedPiece quote))

end TypedResources.Yaml.Scan

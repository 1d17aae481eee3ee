import TypedResources.Yaml.Fault

/-!
A place in a document's text, and readers that move it forward. Lines end at line feeds and at the
three other line breaks of Unicode; byte order marks take no column.
-/

namespace TypedResources.Yaml

def isAllowed (c : Char) : Bool :=
  let n := c.toNat
  n = 9 || n = 10 || n = 13 || (0x20 ≤ n && n ≤ 0x7E) || n = 0x85 || (0xA0 ≤ n && n ≤ 0xFFFD) ||
    0x10000 ≤ n

def isBreak (c : Char) : Bool := c = '\n' || c = '\u0085' || c = '\u2028' || c = '\u2029'

/-- Line feeds stand for themselves and for next-line characters. -/
def unifiedBreak (c : Char) : Char := if c = '\u0085' then '\n' else c

def isSpaceOrTab (c : Char) : Bool := c = ' ' || c = '\t'

/-- Whether a text begins with what ends a word: white space, or its own end. -/
def endsWord : List Char → Bool
  | [] => true
  | c :: _ => isSpaceOrTab c || isBreak c

/-- The same without tabs. -/
def endsField : List Char → Bool
  | [] => true
  | c :: _ => c = ' ' || isBreak c

def endsLine : List Char → Bool
  | [] => true
  | c :: _ => isBreak c

def isNameChar (c : Char) : Bool := c.isAlphanum || c = '-' || c = '_'

/-- Whether a text begins with the mark between two documents, or with the one after a document. -/
def startsWithMark (mark : Char) : List Char → Bool
  | a :: b :: c :: rest => a = mark && b = mark && c = mark && endsWord rest
  | _ => false

def startsWithSeparator (cs : List Char) : Bool := startsWithMark '-' cs || startsWithMark '.' cs

/-- A place in a text: what follows it, and how far it is from the start and from its line's
start. -/
structure Cursor where
  rest : List Char
  index : Nat
  line : Nat
  column : Nat
  deriving DecidableEq, Repr

namespace Cursor

def start (cs : List Char) : Cursor := ⟨cs, 0, 0, 0⟩

def next (c : Cursor) : Cursor :=
  match c.rest with
  | [] => c
  | x :: rest =>
    if isBreak x then ⟨rest, c.index + 1, c.line + 1, 0⟩
    else if x = '\ufeff' then ⟨rest, c.index + 1, c.line, c.column⟩
    else ⟨rest, c.index + 1, c.line, c.column + 1⟩

def past (p : Char → Bool) (c : Cursor) : Cursor := (c.rest.takeWhile p).foldl (fun c _ => c.next) c

end Cursor

/-- Readers move the place forward or find a fault. -/
abbrev Scan := StateT Cursor (Except Fault)

namespace Scan

def ahead : Scan (List Char) := do return (← get).rest

def refuse {α : Type} : Scan α := throw .malformed

def require (condition : Bool) : Scan Unit := if condition then pure () else refuse

def skip (count : Nat) : Scan Unit := modify (Nat.repeat Cursor.next count)

def takeWhile (p : Char → Bool) : Scan (List Char) := do
  let taken := (← ahead).takeWhile p
  modify (Cursor.past p)
  return taken

def takeIf (p : Char → Bool) : Scan (Option Char) := do
  match ← ahead with
  | c :: _ =>
    if p c then
      skip 1
      return some c
    else
      return none
  | [] => return none

def expect (c : Char) : Scan Unit := do require (← takeIf (· = c)).isSome

def lineBreak : Scan (Option Char) := do return (← takeIf isBreak).map unifiedBreak

/-- Skip spaces and a comment up to the end of the line, and the line break. -/
def restOfLine : Scan Unit := do
  let _ ← takeWhile (· = ' ')
  if (← ahead).head? = some '#' then
    let _ ← takeWhile (!isBreak ·)
  require (endsLine (← ahead))
  let _ ← lineBreak

/-- Read pieces as long as there are any, a bounded number of times. -/
def piecesWithin {α : Type} (piece : Scan (Option (List α))) : Nat → Scan (List α)
  | 0 => refuse
  | bound + 1 => do
    match ← piece with
    | some items => return items ++ (← piecesWithin piece bound)
    | none => return []

/-- Read pieces as long as there are any. Every piece takes a character, so that the text bounds
their number. -/
def pieces {α : Type} (piece : Scan (Option (List α))) : Scan (List α) := do
  piecesWithin piece ((← ahead).length + 1)

def repeatWithin {σ α : Type} (step : σ → Scan (σ ⊕ α)) : Nat → σ → Scan α
  | 0, _ => refuse
  | bound + 1, s => do
    match ← step s with
    | .inl s => repeatWithin step bound s
    | .inr a => return a

/-- Repeat a step until it is done. Every step but the last takes a character, so that the text
bounds the number of steps. -/
def untilDone {σ α : Type} (step : σ → Scan (σ ⊕ α)) (s : σ) : Scan α := do
  repeatWithin step ((← ahead).length + 1) s

end Scan

end TypedResources.Yaml

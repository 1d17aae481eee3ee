import TypedResources.Number.Digits
import TypedResources.Yaml.Cursor

/-!
Block scalars: the indented lines below a header. Literal ones keep their line breaks, folded ones
join lines that begin with text.
-/

namespace TypedResources.Yaml.Scan

/-- What becomes of the line breaks at the end of a block scalar. -/
inductive Chomping
  | strip
  | clip
  | keep
  deriving DecidableEq, Repr

structure BlockHeader where
  chomping : Chomping
  indentation : Option Nat
  deriving DecidableEq, Repr

def chomping? : Char → Option Chomping
  | '+' => some .keep
  | '-' => some .strip
  | _ => none

def chompingSign : Scan (Option Chomping) := do
  return (← takeIf fun c => (chomping? c).isSome).bind chomping?

def indentationSign : Scan (Option Nat) := do
  match (← takeIf Number.isDecimalDigit).bind Number.digit? with
  | none => return none
  | some n =>
    require (n ≠ 0)
    return some n

/-- The signs after the sign of a block scalar, in either order, and the rest of their line. -/
def blockHeader : Scan BlockHeader := do
  let before ← chompingSign
  let indentation ← indentationSign
  let after ← if before.isNone && indentation.isSome then chompingSign else pure none
  require (endsField (← ahead))
  restOfLine
  return ⟨(before.or after).getD .clip, indentation⟩

def indentTo (column : Nat) : Scan Unit := do
  let missing := column - (← get).column
  skip (((← ahead).takeWhile (· = ' ')).take missing).length

/-- The line breaks of blank lines that are indented no further than a column. -/
def blockBreaks (indent : Nat) : Scan (List Char) := pieces do
  indentTo indent
  return (← lineBreak).map ([·])

/-- The line breaks of the blank lines at the beginning, and the deepest column there. -/
def leadingBreaks : Scan (List Char × Nat) :=
  untilDone
    (fun (breaks, deepest) => do
      match ← takeIf fun c => c = ' ' || isBreak c with
      | none => return .inr (breaks, deepest)
      | some c =>
        if c = ' ' then
          return .inl (breaks, max deepest (← get).column)
        else
          return .inl (breaks ++ [unifiedBreak c], deepest))
    ([], 0)

def startsText (cs : List Char) : Bool := !cs.head?.any isSpaceOrTab

def blockJoint (folded : Bool) (ended : Option Char) (bothText : Bool) (breaks : List Char) :
    List Char :=
  if folded && ended = some '\n' && bothText then
    (if breaks.isEmpty then [' '] else [])
  else ended.toList

/-- The end of a line: its break, if it has one, and the breaks of the blank lines after it. -/
structure LineEnd where
  ended : Option Char
  breaks : List Char
  deriving DecidableEq, Repr

def chomped (chomping : Chomping) (e : LineEnd) : List Char :=
  match chomping with
  | .strip => []
  | .clip => e.ended.toList
  | .keep => e.ended.toList ++ e.breaks

/-- The lines whose text begins at the column of the block, with the breaks before each of them. The
given line end precedes them. -/
def blockLines (folded : Bool) (indent : Nat) (chomping : Chomping) :
    Nat → LineEnd → Scan (List Char)
  | 0, _ => refuse
  | bound + 1, before => do
    let c ← get
    if c.column ≠ indent || c.rest.isEmpty then
      return chomped chomping before
    let line ← takeWhile (!isBreak ·)
    let ended ← lineBreak
    let breaks ← blockBreaks indent
    let after ← get
    let lead := before.breaks ++ line
    if after.column = indent && !after.rest.isEmpty then
      let joint := blockJoint folded ended (startsText c.rest && startsText after.rest) breaks
      return lead ++ joint ++ (← blockLines folded indent chomping bound ⟨none, breaks⟩)
    else
      return lead ++ chomped chomping ⟨ended, breaks⟩

/-- A block scalar below a node with the given indentation, of which one more is the least. -/
def block (folded : Bool) (least : Nat) : Scan String := do
  skip 1
  let header ← blockHeader
  let (indent, breaks) ←
    match header.indentation with
    | some n =>
      let indent := least + n - 1
      pure (indent, ← blockBreaks indent)
    | none => do
      let (breaks, deepest) ← leadingBreaks
      pure (max least deepest, breaks)
  let bound := (← ahead).length + 1
  return String.ofList (← blockLines folded indent header.chomping bound ⟨none, breaks⟩)

end TypedResources.Yaml.Scan

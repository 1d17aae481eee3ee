import TypedResources.Yaml.Quoted

/-!
Scalars without quotes. They go on over lines that are indented deeply enough, and fold like quoted
ones.
-/

namespace TypedResources.Yaml.Scan

def isFlowSign (c : Char) : Bool := c = ',' || c = '[' || c = ']' || c = '\x7b' || c = '\x7d'

def endsKey (inFlow : Bool) (cs : List Char) : Bool :=
  endsWord cs || (inFlow && cs.head?.any isFlowSign)

/-- The longest beginning of a text that is one piece of a plain scalar. -/
def plainPiece (inFlow : Bool) : List Char → List Char
  | [] => []
  | c :: rest =>
    if endsWord (c :: rest) || (c = ':' && endsKey inFlow rest) ||
        (inFlow && (c = '?' || isFlowSign c)) then []
    else c :: plainPiece inFlow rest

def beginsPlain (inFlow : Bool) : List Char → Bool
  | [] => false
  | c :: rest =>
    if c = '-' then !endsWord rest
    else if c = '?' || c = ':' then !inFlow && !endsWord rest
    else !endsWord [c] && !isFlowSign c && c ≠ '\x60' && !"#&*!|>'\"%@".toList.contains c

/-- The line breaks before the next text, up to a mark between documents, and whether that mark was
reached. -/
def plainBreaks : Scan (List Char × Bool) :=
  untilDone
    (fun breaks => do
      if startsWithSeparator (← ahead) && (← get).column = 0 then
        return .inr (breaks, true)
      else
        match ← takeIf fun c => c = ' ' || isBreak c with
        | none => return .inr (breaks, false)
        | some c => return .inl (if c = ' ' then breaks else breaks ++ [unifiedBreak c]))
    []

structure PlainSpace where
  chars : List Char
  hasBreak : Bool
  deriving DecidableEq, Repr

def plainSpace : Scan PlainSpace := do
  let spaces ← takeWhile (· = ' ')
  match ← lineBreak with
  | none => return ⟨spaces, false⟩
  | some first =>
    match ← plainBreaks with
    | (_, true) => return ⟨[], true⟩
    | (others, false) => return ⟨fold first others, true⟩

/-- The pieces of a plain scalar with the space between them, and whether a line ended after the
last. The space before the next piece is given. -/
def plainPieces (inFlow : Bool) (indent : Nat) : Nat → PlainSpace → Scan (List Char × Bool)
  | 0, _ => refuse
  | bound + 1, before => do
    let cs ← ahead
    let piece := plainPiece inFlow cs
    if cs.head? = some '#' || piece.isEmpty then
      return ([], before.hasBreak)
    skip piece.length
    let space ← plainSpace
    if space.chars.isEmpty || (!inFlow && (← get).column < indent) then
      return (before.chars ++ piece, space.hasBreak)
    let (others, hasBreak) ← plainPieces inFlow indent bound space
    return (before.chars ++ piece ++ others, hasBreak)

/-- A plain scalar, and whether a line ended after it. -/
def plain (inFlow : Bool) (indent : Nat) : Scan (String × Bool) := do
  let (cs, hasBreak) ← plainPieces inFlow indent ((← ahead).length + 1) ⟨[], false⟩
  return (String.ofList cs, hasBreak)

end TypedResources.Yaml.Scan

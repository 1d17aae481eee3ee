import TypedResources.Text.Decode
import TypedResources.Yaml.Block
import TypedResources.Yaml.Plain
import TypedResources.Yaml.Property

/-!
From text to tokens. Indentation opens and closes blocks. A key on one line needs no sign of its
own: what may turn out to be a key is remembered, and its tokens are inserted when its colon comes.
-/

namespace TypedResources.Yaml

structure KeyPlace where
  /-- The number of tokens before it. -/
  token : Nat
  /-- Nothing but a key can stand there. -/
  isRequired : Bool
  index : Nat
  line : Nat
  column : Nat
  deriving DecidableEq, Repr

/-- Keys without a sign of their own are at most this long. -/
def maxKeyLength : Nat := 1024

structure Layout where
  /-- The tokens so far, the last one first, and their number. -/
  tokens : List Token
  count : Nat
  /-- The column of the innermost block, and those of the blocks around it; `-1` outside of all. -/
  indent : Int
  outer : List Int
  /-- How many brackets and braces are open. -/
  flowDepth : Nat
  /-- Whether a key may begin here. -/
  keyAllowed : Bool
  /-- The places where keys may have begun, the innermost first; one per open bracket or brace, and
  one outside of them. -/
  keys : List (Option KeyPlace)
  deriving DecidableEq, Repr

namespace Layout

def start : Layout := ⟨[], 0, -1, [], 0, true, [none]⟩

def inFlow (l : Layout) : Bool := l.flowDepth ≠ 0

def push (token : Token) (l : Layout) : Layout := { l with
  tokens := token :: l.tokens
  count := l.count + 1 }

def insert (place : Nat) (token : Token) (l : Layout) : Layout := { l with
  tokens := l.tokens.take (l.count - place) ++ token :: l.tokens.drop (l.count - place)
  count := l.count + 1 }

def currentKey (l : Layout) : Option KeyPlace := l.keys.head?.join

def setKey (key : Option KeyPlace) (l : Layout) : Layout := { l with keys := key :: l.keys.tail }

def allowKey (allowed : Bool) (l : Layout) : Layout := { l with keyAllowed := allowed }

def dropKey (l : Layout) : Except Fault Layout :=
  if l.currentKey.any (·.isRequired) then throw .malformed else return l.setKey none

/-- A key place is stale when its line is over, or when it is too far behind. -/
def isStale (c : Cursor) (key : KeyPlace) : Bool :=
  key.line ≠ c.line || key.index + maxKeyLength < c.index

def dropStale (c : Cursor) (l : Layout) : Except Fault Layout :=
  if l.keys.any fun key => key.any fun k => isStale c k && k.isRequired then throw .malformed
  else return { l with keys := l.keys.map fun key => key.filter fun k => !isStale c k }

/-- Remember that a key may begin at a place. -/
def markKey (c : Cursor) (l : Layout) : Except Fault Layout := do
  if l.keyAllowed then
    let isRequired := !l.inFlow && l.indent = c.column
    let l ← l.dropKey
    return l.setKey (some ⟨l.count, isRequired, c.index, c.line, c.column⟩)
  else return l

def closeBlocks (column : Int) (l : Layout) : Layout :=
  if l.inFlow then l
  else
    let columns := (l.indent :: l.outer).dropWhile (column < ·)
    let closed := l.outer.length + 1 - columns.length
    { l with
      tokens := List.replicate closed Token.blockEnd ++ l.tokens
      count := l.count + closed
      indent := columns.headD (-1)
      outer := columns.tail }

/-- Open a block at a column, unless it is the innermost one already; the token is inserted at the
given place. -/
def openBlock (column : Nat) (token : Token) (place : Nat) (l : Layout) : Layout :=
  if l.indent < column then
    { l.insert place token with
      indent := column
      outer := l.indent :: l.outer }
  else l

/-- Leave all blocks, as at the marks between documents. -/
def leaveBlocks (l : Layout) : Except Fault Layout := do
  return allowKey false (← (l.closeBlocks (-1)).dropKey)

def openFlow (c : Cursor) (token : Token) (l : Layout) : Except Fault Layout := do
  let l ← l.markKey c
  return { l.push token with
    flowDepth := l.flowDepth + 1
    keyAllowed := true
    keys := none :: l.keys }

/-- A closing sign has to have an open one. -/
def closeFlow (token : Token) (l : Layout) : Except Fault Layout := do
  if l.inFlow then
    let l ← l.dropKey
    return { l.push token with
      flowDepth := l.flowDepth - 1
      keyAllowed := false
      keys := l.keys.tail }
  else throw .malformed

/-- A sign that begins a block entry or a key opens a block where a key may begin. -/
def openAt (c : Cursor) (token : Token) (l : Layout) : Except Fault Layout :=
  if l.inFlow then return l
  else if l.keyAllowed then return l.openBlock c.column token l.count
  else throw .malformed

def dash (c : Cursor) (l : Layout) : Except Fault Layout := do
  let l ← l.openAt c .blockSequence
  return (← (l.allowKey true).dropKey).push .dash

def comma (l : Layout) : Except Fault Layout := do
  return (← (l.allowKey true).dropKey).push .comma

def key (c : Cursor) (l : Layout) : Except Fault Layout := do
  let l ← l.openAt c .blockMapping
  return (← (l.allowKey !l.inFlow).dropKey).push .key

/-- A colon after a key without a sign: the sign is inserted where the key began, and perhaps the
beginning of a block before it. -/
def valueOf (place : KeyPlace) (l : Layout) : Layout :=
  let l := l.insert place.token .key
  let l := if l.inFlow then l else l.openBlock place.column .blockMapping place.token
  ((l.setKey none).allowKey false).push .value

def value (c : Cursor) (l : Layout) : Except Fault Layout := do
  match l.currentKey with
  | some place => return l.valueOf place
  | none =>
    let l ← l.openAt c .blockMapping
    return (← (l.allowKey !l.inFlow).dropKey).push .value

end Layout

namespace Scan

/-- Skip spaces, comments and line breaks; whether a line ended. -/
def skipBlank : Scan Bool :=
  untilDone
    (fun ended => do
      let _ ← takeWhile (· = ' ')
      if (← ahead).head? = some '#' then
        let _ ← takeWhile (!isBreak ·)
      match ← lineBreak with
      | some _ => return .inl true
      | none => return .inr ended)
    false

def sign (change : Except Fault Layout) : Scan Layout := do
  skip 1
  change

def mark (token : Token) (l : Layout) : Scan Layout := do
  let l ← l.leaveBlocks
  skip 3
  return l.push token

/-- A token that may be a key or begin one. -/
def node (l : Layout) (read : Scan Token) : Scan Layout := do
  let l ← l.markKey (← get)
  return (l.allowKey false).push (← read)

def plainNode (l : Layout) : Scan Layout := do
  let l ← l.markKey (← get)
  let (text, ended) ← plain l.inFlow (l.indent + 1).toNat
  return (l.allowKey ended).push (.scalar text true)

def blockNode (folded : Bool) (l : Layout) : Scan Layout := do
  let l ← (l.allowKey true).dropKey
  let text ← block folded (max 1 (l.indent + 1).toNat)
  return l.push (.scalar text false)

def directiveLine (l : Layout) : Scan Layout := do
  let l ← l.leaveBlocks
  return l.push (.directive (← directive))

def token (c : Char) (rest : List Char) (l : Layout) : Scan Layout := do
  let here ← get
  let standsAlone := l.inFlow || endsWord rest
  if c = '%' && here.column = 0 then directiveLine l
  else if here.column = 0 && startsWithMark '-' (c :: rest) then mark .documentStart l
  else if here.column = 0 && startsWithMark '.' (c :: rest) then mark .documentEnd l
  else if c = '[' then sign (l.openFlow here .openBracket)
  else if c = '\x7b' then sign (l.openFlow here .openBrace)
  else if c = ']' then sign (l.closeFlow .closeBracket)
  else if c = '\x7d' then sign (l.closeFlow .closeBrace)
  else if c = ',' then sign l.comma
  else if c = '-' && endsWord rest then sign (l.dash here)
  else if c = '?' && standsAlone then sign (l.key here)
  else if c = ':' && standsAlone then sign (l.value here)
  else if c = '*' then node l (return .alias (← anchorName))
  else if c = '&' then node l (return .anchor (← anchorName))
  else if c = '!' then node l tag
  else if c = '|' && !l.inFlow then blockNode false l
  else if c = '>' && !l.inFlow then blockNode true l
  else if c = '\'' || c = '"' then node l (return .scalar (← quoted c) false)
  else if beginsPlain l.inFlow (c :: rest) then plainNode l
  else refuse

/-- The end of the text closes all blocks. -/
def finish (l : Layout) : Scan Layout := do
  (l.closeBlocks (-1)).dropKey

def step (l : Layout) : Scan (Layout ⊕ Layout) := do
  let l := if (← skipBlank) && !l.inFlow then l.allowKey true else l
  let c ← get
  let l := (← l.dropStale c).closeBlocks c.column
  match c.rest with
  | [] => return .inr (← finish l)
  | x :: rest => return .inl (← token x rest l)

end Scan

/-- The tokens of a text up to the first fault, and that fault. -/
structure Tokens where
  list : List Token
  fault : Option Fault
  deriving DecidableEq, Repr

/-- Go on until the end or a fault, a bounded number of times. -/
def Tokens.collect : Nat → Layout → Cursor → Tokens
  | 0, l, _ => ⟨l.tokens.reverse, some .malformed⟩
  | bound + 1, l, c =>
    match Scan.step l c with
    | .error fault => ⟨l.tokens.reverse, some fault⟩
    | .ok (.inl next, c) => collect bound next c
    | .ok (.inr last, _) => ⟨last.tokens.reverse, none⟩

def Tokens.ofText (cs : List Char) : Tokens :=
  Tokens.collect (cs.length + 1) Layout.start (Cursor.start (Text.withoutMark cs))

end TypedResources.Yaml

import TypedResources.Number.Digits
import TypedResources.Yaml.Cursor
import TypedResources.Yaml.Token

/-!
Directives, and the properties of nodes: anchors and tags.
-/

namespace TypedResources.Yaml.Scan

def name : Scan String := do
  let cs ← takeWhile isNameChar
  require !cs.isEmpty
  return String.ofList cs

def encodedByte : Scan UInt8 := do
  expect '%'
  match ← ahead with
  | a :: b :: _ =>
    match Number.ofDigits? 16 [a, b] with
    | some n =>
      skip 2
      return n.toUInt8
    | none => refuse
  | _ => refuse

def encodedChars : Scan (List Char) := do
  let bytes ← pieces do
    if (← ahead).head? = some '%' then return some [← encodedByte] else return none
  match String.fromUTF8? ⟨bytes.toArray⟩ with
  | some s => return s.toList
  | none => refuse

def isTagChar (c : Char) : Bool := isNameChar c || ";/?:@&=+$,.!~*'()[]".toList.contains c

def tagSuffix : Scan String := do
  let cs ← pieces do
    match (← ahead).head? with
    | some '%' => return some (← encodedChars)
    | some c => if isTagChar c then return some (← takeWhile isTagChar) else return none
    | none => return none
  require !cs.isEmpty
  return String.ofList cs

/-- A tag's handle: one exclamation mark, or a name between two. -/
def tagHandle : Scan String := do
  expect '!'
  if (← ahead).head? = some ' ' then
    return "!"
  let cs ← takeWhile isNameChar
  expect '!'
  return String.ofList ('!' :: cs ++ ['!'])

/-- Whether a tag has another exclamation mark, so that its handle is more than the first one. -/
def hasLongHandle (cs : List Char) : Bool :=
  (cs.drop 1).takeWhile (fun c => c ≠ ' ' && !isBreak c) |>.contains '!'

/-- A tag: given in full, alone, or by a handle and a suffix. -/
def tag : Scan Token := do
  let cs ← ahead
  let token ←
    if cs[1]? = some '<' then do
      skip 2
      let suffix ← tagSuffix
      expect '>'
      pure (Token.tag none suffix)
    else if endsWord (cs.drop 1) then do
      skip 1
      pure (Token.tag none "!")
    else if hasLongHandle cs then do
      let handle ← tagHandle
      pure (Token.tag (some handle) (← tagSuffix))
    else do
      skip 1
      pure (Token.tag (some "!") (← tagSuffix))
  require (endsField (← ahead))
  return token

def anchorName : Scan String := do
  skip 1
  let anchor ← name
  let cs ← ahead
  require (endsWord cs || cs.head?.any fun c => "?:,]\x7d%@".toList.contains c || c = '\x60')
  return anchor

def number : Scan Nat := do
  match Number.ofDigits? 10 (← takeWhile Number.isDecimalDigit) with
  | some n => return n
  | none => refuse

def versionNumber : Scan Nat := do
  require ((← ahead).head?.any Number.isDecimalDigit)
  number

def version : Scan Directive := do
  let _ ← takeWhile (· = ' ')
  let major ← versionNumber
  expect '.'
  let _ ← versionNumber
  require (endsField (← ahead))
  return .version major

def handleMeaning : Scan Directive := do
  let _ ← takeWhile (· = ' ')
  let handle ← tagHandle
  require ((← ahead).head? = some ' ')
  let _ ← takeWhile (· = ' ')
  let lead ← tagSuffix
  require (endsField (← ahead))
  return .handle handle lead

def directive : Scan Directive := do
  skip 1
  let kind ← name
  require (endsField (← ahead))
  let d ←
    if kind = "YAML" then version
    else if kind = "TAG" then handleMeaning
    else do
      let _ ← takeWhile (!isBreak ·)
      pure Directive.other
  restOfLine
  return d

end TypedResources.Yaml.Scan

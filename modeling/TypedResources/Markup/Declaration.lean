import TypedResources.Markup.Aside
import TypedResources.Markup.Literal

/-!
Declarations of a document type: entities, attribute types with their defaults, and others of which
only the form matters.
-/

namespace TypedResources.Markup

inductive EntityContent
  | internal (text : List Char)
  | external
  | unparsed
  deriving DecidableEq, Repr

/-- Attribute types, as far as they matter: whether spaces are significant, and which values are
identities. -/
inductive AttributeType
  | text
  | identity
  | tokens
  deriving DecidableEq, Repr

/-- The declaration of one attribute. `repeats` says that an enumeration names a token twice. -/
structure AttributeRule where
  name : String
  type : AttributeType
  repeats : Bool
  default : Option (List Piece)
  deriving DecidableEq, Repr

inductive Declaration
  | entity (name : String) (content : EntityContent)
  | parameter (name : String) (content : EntityContent)
  | parameterReference (name : String)
  | attributes (element : String) (rules : List AttributeRule)
  | notationName (name : String)
  | instruction (target : String)
  | other
  deriving DecidableEq, Repr

namespace Reader

def isPublicChar (c : Char) : Bool :=
  c = ' ' || c = '\n' || c = '\r' || inSpan 0x61 0x7A c || inSpan 0x41 0x5A c ||
    inSpan 0x30 0x39 c || "-'()+,./:=?;!*#@$_%".toList.contains c

def publicLiteral : Reader Unit := do
  let cs ← quoted
  require (cs.all isPublicChar)

def externalId : Reader (Option (List Char)) := do
  if ← optionalWord "SYSTEM" then
    someBlanks
    return some (← quoted)
  else if ← optionalWord "PUBLIC" then
    someBlanks
    publicLiteral
    someBlanks
    return some (← quoted)
  else
    return none

def notationId : Reader Unit := do
  if ← optionalWord "SYSTEM" then
    someBlanks
    let _ ← quoted
  else
    word "PUBLIC"
    someBlanks
    publicLiteral
    if ← blanks then
      if (← startsWith "\"") || (← startsWith "'") then
        let _ ← quoted

/-- The definition of an entity: a literal or an external identifier without a fragment. -/
def entityContent : Reader EntityContent := do
  match ← externalId with
  | some systemId =>
    require !systemId.contains '#'
    return .external
  | none => return .internal (← entityLiteral)

def entityDeclaration : Reader Declaration := do
  someBlanks
  let isParameter ← optionalWord "%"
  if isParameter then
    someBlanks
  let name ← name
  someBlanks
  let content ← entityContent
  let spaced ← blanks
  if isParameter then
    word ">"
    return .parameter name content
  else
    let isUnparsed ← if content = .external && spaced then optionalWord "NDATA" else pure false
    if isUnparsed then
      someBlanks
      let _ ← Reader.name
      let _ ← blanks
      word ">"
      return .entity name .unparsed
    else
      word ">"
      return .entity name content

def alternatives (item : Reader String) : Reader (List String) := do
  let _ ← blanks
  let first ← item
  let _ ← blanks
  let rest ← many (· = '|') fun _ => do
    let _ ← blanks
    let next ← item
    let _ ← blanks
    return next
  word ")"
  return first :: rest

def hasRepeats : List String → Bool
  | [] => false
  | s :: rest => rest.contains s || hasRepeats rest

/-- An attribute type, and whether it names a token twice. -/
def attributeType : Reader (AttributeType × Bool) := do
  if ← optionalWord "CDATA" then return (.text, false)
  else if ← optionalWord "IDREFS" then return (.tokens, false)
  else if ← optionalWord "IDREF" then return (.tokens, false)
  else if ← optionalWord "ID" then return (.identity, false)
  else if ← optionalWord "ENTITY" then return (.tokens, false)
  else if ← optionalWord "ENTITIES" then return (.tokens, false)
  else if ← optionalWord "NMTOKENS" then return (.tokens, false)
  else if ← optionalWord "NMTOKEN" then return (.tokens, false)
  else if ← optionalWord "NOTATION" then
    someBlanks
    word "("
    return (.tokens, hasRepeats (← alternatives name))
  else
    word "("
    return (.tokens, hasRepeats (← alternatives nameToken))

def attributeDefault : Reader (Option (List Piece)) := do
  if ← optionalWord "#REQUIRED" then
    return none
  else if ← optionalWord "#IMPLIED" then
    return none
  else
    if ← optionalWord "#FIXED" then
      someBlanks
    return some (← attributeLiteral)

/-- White space in an attribute list, with a rule after it if the list goes on. -/
def attributeRule : Reader (Option AttributeRule) := do
  let _ ← blanks
  if ← startsWith ">" then
    return none
  else
    let name ← name
    someBlanks
    let (type, repeats) ← attributeType
    someBlanks
    let default ← attributeDefault
    return some ⟨name, type, repeats, default⟩

def attributeList : Reader Declaration := do
  someBlanks
  let element ← name
  let rules ← many isBlank fun _ => attributeRule
  word ">"
  return .attributes element (rules.filterMap id)

def occurrence : Reader Unit := do
  if ← optionalWord "?" then return ()
  else if ← optionalWord "*" then return ()
  else if ← optionalWord "+" then return ()

def mixedModel : Reader Unit := do
  let _ ← blanks
  let names ← many (· = '|') fun _ => do
    let _ ← blanks
    let _ ← name
    let _ ← blanks
  word ")"
  if names.isEmpty then
    let _ ← optionalWord "*"
  else
    word "*"

/-- The rest of a group of a content model after its parenthesis. Its members are separated by one
kind of mark, and groups nest to a bounded depth. -/
def modelGroup : Nat → Reader Unit
  | 0 => fail
  | depth + 1 => do
    let member : Reader Unit := do
      let _ ← blanks
      if ← optionalWord "(" then
        modelGroup depth
      else
        let _ ← name
        occurrence
      let _ ← blanks
    member
    let separators ← many (fun c => c = ',' || c = '|') fun c => do
      member
      return c
    require (separators.all fun c => separators.head? = some c)
    word ")"
    occurrence

def maxModelDepth : Nat := 256

def elementDeclaration : Reader Declaration := do
  someBlanks
  let _ ← name
  someBlanks
  if ← optionalWord "EMPTY" then pure ()
  else if ← optionalWord "ANY" then pure ()
  else
    word "("
    let _ ← blanks
    if ← optionalWord "#PCDATA" then mixedModel else modelGroup maxModelDepth
  let _ ← blanks
  word ">"
  return .other

def notationDeclaration : Reader Declaration := do
  someBlanks
  let name ← name
  someBlanks
  notationId
  let _ ← blanks
  word ">"
  return .notationName name

/-- A declaration, of which the first character is given. -/
def declaration (first : Char) : Reader Declaration := do
  if first = '%' then
    let name ← name
    word ";"
    return .parameterReference name
  else if first = '<' then
    if ← optionalWord "?" then
      return .instruction (← instruction)
    else if ← optionalWord "!--" then
      comment
      return .other
    else if ← optionalWord "!ENTITY" then
      entityDeclaration
    else if ← optionalWord "!ATTLIST" then
      attributeList
    else if ← optionalWord "!ELEMENT" then
      elementDeclaration
    else
      word "!NOTATION"
      notationDeclaration
  else
    return .other

def beginsDeclaration (c : Char) : Bool := c = '<' || c = '%' || isBlank c

def declarations : Reader (List Declaration) := many beginsDeclaration declaration

end Reader

def declarations? (cs : List Char) : Option (List Declaration) := Reader.declarations.readAll cs

end TypedResources.Markup

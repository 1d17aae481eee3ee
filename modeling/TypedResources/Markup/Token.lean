import TypedResources.Markup.Aside
import TypedResources.Markup.Literal

/-!
The tokens of a document's content: character data, references, tags, and what is skipped.
-/

namespace TypedResources.Markup

structure RawAttribute where
  name : String
  value : List Piece
  deriving DecidableEq, Repr

inductive Token
  | text (cs : List Char)
  | section (cs : List Char)
  | reference (piece : Piece)
  | opening (name : String) (attributes : List RawAttribute) (closed : Bool)
  | closing (name : String)
  | comment
  | instruction (target : String)
  deriving DecidableEq, Repr

namespace Reader

/-- White space in a tag, with an attribute after it if the tag goes on. -/
def tagPart : Reader (Option RawAttribute) := do
  let _ ← blanks
  match ← peek with
  | some '>' | some '/' => return none
  | _ =>
    let name ← name
    let _ ← blanks
    word "="
    let _ ← blanks
    return some ⟨name, ← attributeLiteral⟩

def openingTag : Reader Token := do
  let name ← name
  let attributes ← many isBlank fun _ => tagPart
  let closed ← optionalWord "/"
  word ">"
  return .opening name (attributes.filterMap id) closed

def closingTag : Reader Token := do
  let name ← name
  let _ ← blanks
  word ">"
  return .closing name

/-- A token that begins with a less-than sign, which is already taken. -/
def markup : Reader Token := do
  if ← optionalWord "/" then
    closingTag
  else if ← optionalWord "!--" then
    comment
    return .comment
  else if ← optionalWord "![CDATA[" then
    return .section (← upTo "]]>")
  else if ← optionalWord "?" then
    return .instruction (← instruction)
  else
    openingTag

def hasSectionEnd : List Char → Bool
  | ']' :: ']' :: '>' :: _ => true
  | _ :: rest => hasSectionEnd rest
  | [] => false

def characterData (first : Char) : Reader Token := do
  let rest ← takeWhile fun c => c != '<' && c != '&'
  require !hasSectionEnd (first :: rest)
  return .text (first :: rest)

/-- A token, whose first character is given. -/
def token (first : Char) : Reader Token :=
  if first = '<' then markup
  else if first = '&' then do return .reference (← reference)
  else characterData first

end Reader

def tokens? (cs : List Char) : Option (List Token) :=
  (Reader.many (fun _ => true) Reader.token).readAll cs

end TypedResources.Markup

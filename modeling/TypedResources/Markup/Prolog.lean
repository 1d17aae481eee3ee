import TypedResources.Markup.Declaration

/-!
What stands before the root element: the document's own declaration and its type.
-/

namespace TypedResources.Markup

/-- A document type: whether an external part exists, and the declarations of the internal part. -/
structure DocumentType where
  hasExternalPart : Bool
  declarations : List Declaration
  deriving DecidableEq, Repr

/-- The prolog of a document. Targets of instructions are kept in two parts, those before the
document type and those after it. -/
structure Prolog where
  isStandalone : Bool
  before : List String
  documentType : Option DocumentType
  after : List String
  deriving DecidableEq, Repr

namespace Reader

/-- A digit, a point, and more digits, if any. Only the first major version is known. -/
def isVersion : List Char → Bool
  | '1' :: '.' :: rest => rest.all Char.isDigit
  | _ => false

def isEncodingName : List Char → Bool
  | c :: rest =>
    c.isAlpha && rest.all fun d => d.isAlphanum || d = '.' || d = '_' || d = '-'
  | [] => false

def assigned : Reader (List Char) := do
  let _ ← blanks
  word "="
  let _ ← blanks
  quoted

/-- The rest of a document's declaration after its opening: a version, then perhaps an encoding,
then perhaps whether the document stands alone. -/
def documentDeclaration : Reader Bool := do
  someBlanks
  word "version"
  require (isVersion (← assigned))
  let spaced ← blanks
  let hasEncoding ← optionalWord "encoding"
  let spaced ←
    if hasEncoding then do
      require spaced
      require (isEncodingName (← assigned))
      blanks
    else pure spaced
  let hasStandalone ← optionalWord "standalone"
  let standalone ←
    if hasStandalone then do
      require spaced
      let value ← assigned
      require (value = "yes".toList || value = "no".toList)
      let _ ← blanks
      pure (value == "yes".toList)
    else pure false
  word "?>"
  return standalone

def asides : Reader (List String)
  | '<' :: '?' :: input =>
    match instruction input with
    | none => none
    | some t =>
      match asides t.rest with
      | none => none
      | some u =>
        some ⟨t.value :: u.value, u.rest,
          (u.rest_suffix.trans t.rest_suffix).trans ⟨['<', '?'], rfl⟩⟩
  | '<' :: '!' :: '-' :: '-' :: input =>
    match comment input with
    | none => none
    | some t =>
      match asides t.rest with
      | none => none
      | some u =>
        some ⟨u.value, u.rest,
          (u.rest_suffix.trans t.rest_suffix).trans ⟨['<', '!', '-', '-'], rfl⟩⟩
  | c :: input =>
    if isBlank c then
      match asides input with
      | none => none
      | some u => some ⟨u.value, u.rest, u.rest_suffix.trans (List.suffix_cons _ _)⟩
    else some ⟨[], c :: input, List.suffix_refl _⟩
  | [] => some ⟨[], [], List.suffix_refl _⟩
termination_by input => input.length
decreasing_by
  · have := t.rest_le
    simp only [List.length_cons]
    omega
  · have := t.rest_le
    simp only [List.length_cons]
    omega
  · simp

def documentType : Reader DocumentType := do
  someBlanks
  let _ ← name
  let _ ← blanks
  let external ← externalId
  let _ ← blanks
  let declarations ←
    if ← optionalWord "[" then do
      let found ← declarations
      word "]"
      let _ ← blanks
      pure found
    else pure []
  word ">"
  return ⟨external.isSome, declarations⟩

def atDeclaration : Reader Bool := do
  let rest ← lookahead
  return "<?xml".toList.isPrefixOf rest && rest[5]?.any isBlank

def prolog : Reader Prolog := do
  let isStandalone ←
    if ← atDeclaration then do
      word "<?xml"
      documentDeclaration
    else pure false
  let before ← asides
  if ← optionalWord "<!DOCTYPE" then
    let type ← documentType
    let after ← asides
    return ⟨isStandalone, before, some type, after⟩
  else
    return ⟨isStandalone, before, none, []⟩

end Reader

end TypedResources.Markup

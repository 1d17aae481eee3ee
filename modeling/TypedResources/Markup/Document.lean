import TypedResources.Markup.Checking
import TypedResources.Markup.Node
import TypedResources.Markup.Prolog
import TypedResources.Markup.Qualified
import TypedResources.Markup.Token
import TypedResources.Markup.Uri
import TypedResources.Text.Decode

/-!
Reading a whole document. Its tokens are put together to a tree, while names are expanded, defaults
are added and entities are checked at their first use.
-/

namespace TypedResources.Markup

/-- An element that is not closed yet; its children are in reverse order. -/
structure OpenElement where
  written : String
  name : ExpandedName
  attributes : List Attribute
  scope : Scope
  children : List Node

/-- The open elements, the innermost first, and the finished nodes outside them in reverse. -/
structure Building where
  openElements : List OpenElement
  finished : List Node

namespace Building

def empty : Building := ⟨[], []⟩

def add (b : Building) (node : Node) : Building :=
  match b.openElements with
  | [] => { b with finished := node :: b.finished }
  | inner :: outer => { b with openElements := { inner with
      children := node :: inner.children } :: outer }

def scope (b : Building) : Scope := (b.openElements.head?.map (·.scope)).getD []

/-- Close the innermost element, which has to have the given name. -/
def close? (b : Building) (written : String) : Option Building :=
  match b.openElements with
  | [] => none
  | inner :: outer =>
    if inner.written = written then
      some (add ⟨outer, b.finished⟩ (.element inner.name inner.attributes inner.children.reverse))
    else none

end Building

namespace Check

def maxElementDepth : Nat := 256

structure PendingAttribute where
  qualifier : Option String
  localName : String
  written : String
  pieces : List Piece
  deriving DecidableEq, Repr

def normalize (type : AttributeType) (pieces : List Piece) : List Piece :=
  let spaced := pieces.map Piece.spaced
  match type with
  | .text => spaced
  | _ => tokenize spaced

def isBinding (a : PendingAttribute) : Bool :=
  a.qualifier = some "xmlns" || (a.qualifier = none && a.localName = "xmlns")

def boundQualifier (a : PendingAttribute) : Option String :=
  if a.qualifier = none then none else some a.localName

/-- Note what is wrong with a binding; whether it takes effect. -/
def admitBinding (qualifier : Option String) (space : String) : Check Bool := do
  match qualifier with
  | none =>
    if space = "" then
      return true
    if !Uri.isReference space.toList then
      fault
    else if !Uri.isAbsolute space.toList then
      warn
    if space = Scope.xmlSpace || space = Scope.bindingSpace then
      fault
      return false
    return true
  | some qualifier =>
    if qualifier = "xml" then
      faultIf (space ≠ Scope.xmlSpace)
      return false
    if space = Scope.xmlSpace || qualifier = "xmlns" || space = Scope.bindingSpace ||
        space = "" then
      fault
      return false
    faultIf (!Uri.isReference space.toList)
    return true

/-- The bindings that an element's attributes make, the last first. No qualifier is bound twice. -/
def bindings (depth : Nat) : List (Option String × String) → List PendingAttribute →
    Check (List (Option String × String))
  | made, [] => return made
  | made, a :: rest => do
    if isBinding a then
      let space ← value depth a.pieces
      if ← admitBinding (boundQualifier a) space then
        require (made.lookup (boundQualifier a)).isNone
        bindings depth ((boundQualifier a, space) :: made) rest
      else
        bindings depth made rest
    else
      bindings depth made rest

/-- An attribute of a tag, taken apart and normalized. -/
def pend (element : String) (raw : RawAttribute) : Check PendingAttribute := do
  let q ← ofOption (QualifiedName.ofText? raw.name.toList)
  faultIf q.isFaulty
  let type := ((rule? (← get) element raw.name).map (·.type)).getD .text
  let pieces := normalize type raw.value
  if q.qualifier = some "xml" && q.localName = "space" then
    let written := pieces.mapM fun
      | .plain c | .coded c => some c
      | .entity _ => none
    unless written = some "default".toList ∨ written = some "preserve".toList do
      warn
  return ⟨q.qualifier, q.localName, raw.name, pieces⟩

def defaultsFor (element : String) : Check (List PendingAttribute) := do
  let rules := ((← get).rules.filter fun (e, r) => e = element && r.default.isSome).map (·.2)
  rules.filterMapM fun r => do
    match QualifiedName.ofText? r.name.toList with
    | none => return none
    | some q =>
      return some ⟨q.qualifier, q.localName, r.name, normalize r.type (r.default.getD [])⟩

/-- Expand the name of an attribute. Attributes without a qualifier are in no namespace. -/
def expandAttribute (scope : Scope) (a : PendingAttribute) : Check ExpandedName := do
  match a.qualifier with
  | none => return ⟨none, a.localName⟩
  | some qualifier =>
    match Scope.find scope (some qualifier) with
    | some space => return ⟨some space, a.localName⟩
    | none =>
      fault
      return ⟨none, a.written⟩

/-- Two attributes may not be written alike, and should not mean the same. -/
def distinct : List (PendingAttribute × ExpandedName) → Check Unit
  | [] => pure ()
  | (a, name) :: rest => do
    require (rest.all fun (b, _) => a.written ≠ b.written)
    faultIf (name.space.isSome && rest.any fun (_, other) => name = other)
    distinct rest

/-- Note an identity, which should be new. -/
def identify (text : String) : Check Unit := do
  faultIf ((← get).identities.contains text)
  modify fun p => { p with identities := text :: p.identities }

def checkIdentity (element : String) (a : PendingAttribute) (text : String) : Check Unit := do
  let isText := a.pieces.all fun
    | .entity name => (predefined? name).isSome
    | _ => true
  if isText && text ≠ "" then
    if a.qualifier = some "xml" && a.localName = "id" then
      faultIf (!isPlainName text.toList)
      identify text
    else if ((rule? (← get) element a.written).map (·.type)) = some .identity then
      identify text

def openElement (depth : Nat) (outer : Scope) (written : String) (raw : List RawAttribute) :
    Check OpenElement := do
  let q ← ofOption (QualifiedName.ofText? written.toList)
  faultIf q.isFaulty
  let given ← raw.mapM (pend written)
  let made ← bindings depth [] given
  let defaults ← defaultsFor written
  let defaultBindings ← defaults.filterMapM fun a => do
    if isBinding a && (made.lookup (boundQualifier a)).isNone then
      return some (boundQualifier a, ← value depth a.pieces)
    else
      return none
  let scope := defaultBindings ++ made ++ outer
  let plain := given.filter (!isBinding ·)
  let names ← plain.mapM (expandAttribute scope)
  distinct (plain.zip names)
  let added := defaults.filter fun a =>
    !isBinding a && !plain.any fun b => a.written = b.written
  let addedNames ← added.mapM (expandAttribute scope)
  faultIf (addedNames.any fun name => name.space.isSome && names.contains name)
  let space := Scope.find scope q.qualifier
  faultIf (q.qualifier.isSome && space.isNone)
  let all := (plain.zip names) ++ (added.zip addedNames)
  let attributes ← all.mapM fun (a, name) => do
    let text ← value depth a.pieces
    checkIdentity written a text
    return (⟨name, text⟩ : Attribute)
  let name : ExpandedName :=
    if q.qualifier.isSome && space.isNone then ⟨none, written⟩ else ⟨space, q.localName⟩
  return ⟨written, name, attributes, scope, []⟩

/-- Put tokens together. `outerDepth` elements are open around them; a reference becomes the node
that `onReference` gives for it. -/
def build (depth outerDepth : Nat) (onReference : Nat → String → Check Node) :
    Building → List Token → Check (List Node)
  | b, [] => do
    require b.openElements.isEmpty
    return b.finished.reverse
  | b, token :: rest => do
    match token with
    | .text cs | .section cs =>
      build depth outerDepth onReference (b.add (.text (String.ofList cs))) rest
    | .reference (.plain c) | .reference (.coded c) =>
      build depth outerDepth onReference (b.add (.text (String.singleton c))) rest
    | .reference (.entity name) =>
      let node ← onReference (outerDepth + b.openElements.length) name
      build depth outerDepth onReference (b.add node) rest
    | .opening name attributes closed =>
      require (outerDepth + b.openElements.length < maxElementDepth)
      let element ← openElement depth b.scope name attributes
      if closed then
        build depth outerDepth onReference
          (b.add (.element element.name element.attributes [])) rest
      else
        build depth outerDepth onReference { b with
          openElements := element :: b.openElements } rest
    | .closing name =>
      build depth outerDepth onReference (← ofOption (b.close? name)) rest
    | .comment => build depth outerDepth onReference b rest
    | .instruction target =>
      instruction target
      build depth outerDepth onReference b rest

/-- The node for a reference in content. The text of an entity is checked where it is first used. -/
def contentReference : Nat → Nat → String → Check Node
  | depth, openDepth, name => do
    match predefined? name with
    | some c => return .text (String.singleton c)
    | none =>
      match (← get).entities.lookup name with
      | none => undeclared
      | some ⟨.unparsed, _, _⟩ => refuse
      | some ⟨.external, _, _⟩ => pure ()
      | some ⟨.internal _, some _, cost⟩ => charge cost
      | some ⟨.internal text, none, _⟩ =>
        match depth with
        | 0 => refuse
        | depth + 1 =>
          let tokens ← ofOption (tokens? (Text.unifyLineEnds text))
          let (_, inner) ← separately
            (build (depth - 1) (openDepth + 1) (contentReference depth) Building.empty tokens)
          markRead name .content (byteLength text + inner)
          charge (byteLength text + inner)
      return .reference name

/-- Outside the root element only white space, comments and instructions may stand. -/
def isOutside : Token → Bool
  | .text cs => cs.all Reader.isBlank
  | .comment | .instruction _ => true
  | _ => false

def splitRoot (depth : Nat) : List Token → List Token × List Token
  | [] => ([], [])
  | token :: rest =>
    let after := match token with
      | .opening _ _ false => depth + 1
      | .closing _ => depth - 1
      | _ => depth
    if after = 0 then ([token], rest)
    else (token :: (splitRoot after rest).1, (splitRoot after rest).2)

/-- Check a document's parts in their order; its root element. -/
def document (prolog : Prolog) (tokens : List Token) : Check Node := do
  prolog.before.forM instruction
  match prolog.documentType with
  | some type =>
    modify fun p => { p with hasOutside := type.hasExternalPart }
    type.declarations.forM (declare maxEntityDepth)
  | none => pure ()
  prolog.after.forM instruction
  let (root, after) := splitRoot 0 tokens
  require (after.all isOutside)
  let nodes ←
    build (maxEntityDepth - 1) 0 (contentReference maxEntityDepth) Building.empty (root ++ after)
  match nodes with
  | root@(.element ..) :: _ => return root
  | _ => refuse

end Check

def readDocument (text : String) : Option Node := do
  let cs := Text.unifyLineEnds (Text.withoutMark text.toList)
  guard (cs.all isChar)
  let prolog ← Reader.prolog cs
  let tokens ← tokens? prolog.rest
  let start : Progress :=
    { entities := []
      parameters := []
      rules := []
      isStandalone := prolog.value.isStandalone
      hasOutside := false
      isFaulty := false
      identities := []
      spent := 0
      allowance := Check.allowanceFor (byteLength cs) }
  let (root, progress) ← (Check.document prolog.value tokens).run start
  guard (!progress.isFaulty)
  return root

end TypedResources.Markup

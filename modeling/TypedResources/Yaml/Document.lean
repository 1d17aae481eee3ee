import TypedResources.Yaml.Layout
import TypedResources.Yaml.Node

/-!
From tokens to the node of a document. A text holds one document at most.
-/

namespace TypedResources.Yaml

structure Progress where
  tokens : List Token
  /-- What stopped the tokens, if anything did. -/
  fault : Option Fault
  /-- What the handles of tags stand for. -/
  handles : List (String × String)
  /-- The anchored nodes; a node that is still being read is none yet. -/
  anchors : List (String × Option Node)

abbrev Build := StateT Progress (Except Fault)

namespace Build

/-- Refuse the next token; where the tokens end early, what stopped them is the fault. -/
def refuse {α : Type} : Build α := do
  let p ← get
  throw (if p.tokens.isEmpty then p.fault.getD .malformed else .malformed)

def peek : Build (Option Token) := do return (← get).tokens.head?

def advance : Build Unit := modify fun p => { p with tokens := p.tokens.tail }

def takeIf (token : Token) : Build Bool := do
  if (← peek) = some token then
    advance
    return true
  else
    return false

def expect (token : Token) : Build Unit := do
  unless ← takeIf token do refuse

def comes (tokens : List Token) : Build Bool := do return (← peek).any tokens.contains

def standardHandles : List (String × String) := [("!", "!"), ("!!", "tag:yaml.org,2002:")]

def tagName (handle : Option String) (suffix : String) : Build String := do
  match handle with
  | none => return suffix
  | some name =>
    match (← get).handles.lookup name with
    | some lead => return lead ++ suffix
    | none => refuse

structure Properties where
  anchor : Option String
  tag : Option String
  deriving DecidableEq, Repr

def Properties.isEmpty (p : Properties) : Bool := p.anchor.isNone && p.tag.isNone

def anchor? : Build (Option String) := do
  match ← peek with
  | some (.anchor name) =>
    advance
    return some name
  | _ => return none

def tag? : Build (Option String) := do
  match ← peek with
  | some (.tag handle suffix) =>
    advance
    return some (← tagName handle suffix)
  | _ => return none

def properties : Build Properties := do
  match ← anchor? with
  | some name => return ⟨some name, ← tag?⟩
  | none =>
    match ← tag? with
    | some tag => return ⟨← anchor?, some tag⟩
    | none => return ⟨none, none⟩

def collectionTag (usual : Tag) : Option String → Tag
  | none | some "!" => usual
  | some name => Tag.ofName name

/-- The tag of a scalar: the spelling decides on a plain one, or on one that asks for it. -/
def scalarTag (isPlain : Bool) (text : String) : Option String → Tag
  | none => if isPlain then Tag.implied text.toList else .text
  | some "!" => Tag.implied text.toList
  | some name => Tag.ofName name

/-- No two nodes have one anchor. -/
def openAnchor : Option String → Build Unit
  | none => pure ()
  | some name => do
    if ((← get).anchors.lookup name).isSome then refuse
    modify fun p => { p with anchors := (name, none) :: p.anchors }

def closeAnchor (node : Node) : Option String → Build Unit
  | none => pure ()
  | some name => modify fun p => { p with anchors := (name, some node) :: p.anchors }

/-- The node that an alias names. It has to be complete, since nothing here contains itself. It has no
value key either: merging a mapping turns its value key into a text, at all places where it stands. -/
def aliased (name : String) : Build Node := do
  match (← get).anchors.lookup name with
  | some (some node) => if node.mentions .value then throw .identity else return node
  | some none => throw .identity
  | none => refuse

/-- Where a node stands: what collections may begin there. -/
inductive Place
  | block
  | entryOfMapping
  | flow
  deriving DecidableEq, Repr

def entryEnds : List Token := [.key, .value, .blockEnd]

mutual

/-- A node at a place. The bound counts how many readers may still call one another. -/
def node : Nat → Place → Build Node
  | 0, _ => refuse
  | bound + 1, place => do
    match ← peek with
    | some (.alias name) =>
      let node ← aliased name
      advance
      return node
    | _ =>
      let p ← properties
      openAnchor p.anchor
      let node ← content bound place p
      closeAnchor node p.anchor
      return node

def content : Nat → Place → Properties → Build Node
  | 0, _, _ => refuse
  | bound + 1, place, p => do
    let sequence := Node.sequence (collectionTag .sequence p.tag)
    let mapping := Node.mapping (collectionTag .mapping p.tag)
    match ← peek, place with
    | some (.scalar text isPlain), _ =>
      advance
      return Node.scalar (scalarTag isPlain text p.tag) text
    | some .openBracket, _ =>
      advance
      return sequence (← bracketed bound true)
    | some .openBrace, _ =>
      advance
      return mapping (← braced bound true)
    | some .dash, .entryOfMapping => return sequence (← dashed bound (.dash :: entryEnds))
    | some .blockSequence, .block | some .blockSequence, .entryOfMapping =>
      advance
      let items ← dashed bound [.dash, .blockEnd]
      expect .blockEnd
      return sequence items
    | some .blockMapping, .block | some .blockMapping, .entryOfMapping =>
      advance
      let entries ← blockEntries bound
      expect .blockEnd
      return mapping entries
    | _, _ => if p.isEmpty then refuse else return Node.scalar (scalarTag true "" p.tag) ""

/-- Items after dashes; an item is missing where one of the given tokens comes. -/
def dashed : Nat → List Token → Build (List Node)
  | 0, _ => refuse
  | bound + 1, ends => do
    if ← takeIf .dash then
      let item ← if ← comes ends then pure Node.nothing else node bound .block
      return item :: (← dashed bound ends)
    else return []

/-- A node that is missing where one of the given tokens comes. -/
def optional : Nat → Place → List Token → Build Node
  | 0, _, _ => refuse
  | bound + 1, place, ends => do
    if ← comes ends then return Node.nothing else node bound place

/-- The value after a colon; without one it is missing. -/
def valueAt : Nat → Place → List Token → Build Node
  | 0, _, _ => refuse
  | bound + 1, place, ends => do
    if ← takeIf .value then optional bound place ends else return Node.nothing

def blockEntries : Nat → Build (List (Node × Node))
  | 0 => refuse
  | bound + 1 => do
    if ← takeIf .key then
      let key ← optional bound .entryOfMapping entryEnds
      let value ← valueAt bound .entryOfMapping entryEnds
      return (key, value) :: (← blockEntries bound)
    else return []

/-- The items between brackets. A key among them makes a mapping of one entry. -/
def bracketed : Nat → Bool → Build (List Node)
  | 0, _ => refuse
  | bound + 1, isFirst => do
    if ← takeIf .closeBracket then return []
    unless isFirst do expect .comma
    if ← takeIf .key then
      let key ← optional bound .flow [.value, .comma, .closeBracket]
      let value ← valueAt bound .flow [.comma, .closeBracket]
      return Node.mapping .mapping [(key, value)] :: (← bracketed bound false)
    else if ← takeIf .closeBracket then return []
    else
      let item ← node bound .flow
      return item :: (← bracketed bound false)

/-- The entries between braces. A node without a colon is a key without a value. -/
def braced : Nat → Bool → Build (List (Node × Node))
  | 0, _ => refuse
  | bound + 1, isFirst => do
    if ← takeIf .closeBrace then return []
    unless isFirst do expect .comma
    if ← takeIf .key then
      let key ← optional bound .flow [.value, .comma, .closeBrace]
      let value ← valueAt bound .flow [.comma, .closeBrace]
      return (key, value) :: (← braced bound false)
    else if ← takeIf .closeBrace then return []
    else
      let key ← node bound .flow
      return (key, Node.nothing) :: (← braced bound false)

end

/-- Take directives into account: at most one version, which is 1, and no handle twice. -/
def directives : Nat → Bool → Build Unit
  | 0, _ => refuse
  | bound + 1, hasVersion => do
    match ← peek with
    | some (.directive d) =>
      advance
      match d with
      | .version major =>
        if hasVersion || major ≠ 1 then refuse
        directives bound true
      | .handle name lead =>
        if ((← get).handles.lookup name).isSome then refuse
        modify fun p => { p with handles := p.handles ++ [(name, lead)] }
        directives bound hasVersion
      | .other => directives bound hasVersion
    | _ => modify fun p => { p with handles := p.handles ++ standardHandles }

def documentContent (bound : Nat) : Build Node := do
  match ← peek with
  | some (.directive _) | some .documentStart | some .documentEnd => return Node.nothing
  | none => if (← get).fault.isSome then refuse else return Node.nothing
  | _ => node bound .block

/-- End marks, and then the end of the text. -/
def documentEnd : Build Unit := do
  modify fun p => { p with tokens := p.tokens.dropWhile (· = .documentEnd) }
  let p ← get
  unless p.tokens.isEmpty && p.fault.isNone do refuse

def document (bound : Nat) : Build (Option Node) := do
  match ← peek with
  | none => if (← get).fault.isSome then refuse else return none
  | some (.directive _) | some .documentStart =>
    directives bound false
    expect .documentStart
    let node ← documentContent bound
    documentEnd
    return some node
  | _ =>
    modify fun p => { p with handles := standardHandles }
    let node ← node bound .block
    documentEnd
    return some node

end Build

def readDocument (cs : List Char) : Except Fault (Option Node) :=
  if cs.all isAllowed then
    let tokens := Tokens.ofText cs
    ((Build.document (4 * (tokens.list.length + 4))).run ⟨tokens.list, tokens.fault, [], []⟩).map
      (·.1)
  else .error .malformed

end TypedResources.Yaml

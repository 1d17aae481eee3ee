import TypedResources.Markup.Declaration
import TypedResources.Text.Lines

/-!
The state in which a document is checked: its entities and attribute rules, and what was found so
far. A document is refused outright, or it is faulty: a fault counts unless a warning comes later.
-/

namespace TypedResources.Markup

inductive FirstReading
  | content
  | value
  deriving DecidableEq, Repr

/-- A declared entity. The cost is known once its text was read as content. -/
structure Entity where
  content : EntityContent
  firstReading : Option FirstReading
  cost : Nat
  deriving DecidableEq, Repr

structure Progress where
  entities : List (String × Entity)
  parameters : List (String × EntityContent)
  rules : List (String × AttributeRule)
  isStandalone : Bool
  /-- Some declarations may be out of sight. -/
  hasOutside : Bool
  isFaulty : Bool
  identities : List String
  spent : Nat
  allowance : Nat
  deriving DecidableEq, Repr

/-- A check fails on a refused document. -/
abbrev Check (α : Type) := StateT Progress Option α

namespace Check

def refuse {α : Type} : Check α := failure

def ofOption {α : Type} : Option α → Check α
  | some a => pure a
  | none => failure

def require (condition : Bool) : Check Unit := if condition then pure () else failure

def fault : Check Unit := modify fun p => { p with isFaulty := true }

def faultIf (condition : Bool) : Check Unit := if condition then fault else pure ()

/-- Note a warning, which outdates the faults before it. -/
def warn : Check Unit := modify fun p => { p with isFaulty := false }

def referenceCost : Nat := 20

/-- Expansion up to this many bytes is always allowed. -/
def freeExpansion : Nat := 1000000

/-- The most that a document of a given size may expand to. -/
def allowanceFor (bytes : Nat) : Nat := max freeExpansion (5 * bytes + 4)

def charge (size : Nat) : Check Unit := do
  let p ← get
  let spent := p.spent + size + referenceCost
  if p.allowance < spent then refuse else set { p with spent := spent }

/-- Run a check on an account of its own; its result and what it spent. -/
def separately {α : Type} (check : Check α) : Check (α × Nat) := do
  let before := (← get).spent
  modify fun p => { p with spent := 0 }
  let result ← check
  let inner := (← get).spent
  modify fun p => { p with spent := before }
  return (result, inner)

/-- Check something without any trace but its faults and warnings. -/
def withoutTrace {α : Type} (check : Check α) : Check α := do
  let before ← get
  let result ← check
  modify fun p => { before with isFaulty := p.isFaulty }
  return result

/-- A reference to something undeclared is tolerated if its declaration may be out of sight. -/
def undeclared : Check Unit := do
  let p ← get
  if p.isStandalone || !p.hasOutside then refuse else warn

/-- Remember how an entity was first read, and its cost. -/
def markRead (name : String) (reading : FirstReading) (cost : Nat) : Check Unit :=
  modify fun p => { p with
    entities := p.entities.map fun (n, e) =>
      if n = name && e.firstReading.isNone then (n, ⟨e.content, some reading, cost⟩) else (n, e) }

/-- Targets of instructions that begin with the reserved letters and are known all the same. -/
def knownTargets : List String := ["xml-stylesheet", "xml-model"]

def instruction (target : String) : Check Unit := do
  if (target.toList.take 3).map Char.toLower = "xml".toList then
    if !knownTargets.contains target then
      warn
      faultIf (target.toList.contains ':')
  else
    faultIf (target.toList.contains ':')

def maxEntityDepth : Nat := 20

/-- The text of an entity in an attribute value: nothing of it may be a tag or lie outside. -/
def entityValue : Nat → String → Check (List Char)
  | 0, _ => refuse
  | depth + 1, name => do
    match (← get).entities.lookup name with
    | none =>
      undeclared
      return []
    | some ⟨.internal text, reading, _⟩ =>
      require !text.contains '<'
      let text := if reading = some .content then Text.unifyLineEnds text else text
      let pieces ← ofOption (pieces? text)
      let (parts, inner) ← separately (pieces.mapM fun
        | .plain c | .coded c => pure [c]
        | .entity inner =>
          match predefined? inner with
          | some c => pure [c]
          | none => entityValue depth inner)
      charge (byteLength text + inner)
      markRead name .value (byteLength text + inner)
      return parts.flatten
    | some _ => refuse

/-- The value that a literal's pieces give, at some depth of entities. -/
def value (depth : Nat) (pieces : List Piece) : Check String := do
  let parts ← pieces.mapM fun
    | .plain c | .coded c => pure [c]
    | .entity name =>
      match predefined? name with
      | some c => pure [c]
      | none => entityValue depth name
  return String.ofList parts.flatten

def declareEntity (name : String) (content : EntityContent) : Check Unit := do
  faultIf (name.toList.contains ':')
  modify fun p => { p with
    entities := if (p.entities.lookup name).isSome then p.entities
      else p.entities ++ [(name, ⟨content, none, 0⟩)] }

def declareParameter (name : String) (content : EntityContent) : Check Unit := do
  faultIf (name.toList.contains ':')
  modify fun p => { p with
    parameters := if (p.parameters.lookup name).isSome then p.parameters
      else p.parameters ++ [(name, content)] }

def rule? (p : Progress) (element name : String) : Option AttributeRule :=
  (p.rules.find? fun (e, r) => e = element && r.name = name).map (·.2)

def declareAttribute (element : String) (rule : AttributeRule) : Check Unit := do
  faultIf rule.repeats
  let _ ← withoutTrace (value (maxEntityDepth - 1) (rule.default.getD []))
  faultIf (rule.name = "xml:id" && rule.type ≠ .identity)
  modify fun p => { p with
    rules := if (rule? p element rule.name).isSome then p.rules else p.rules ++ [(element, rule)] }

/-- Work off declarations. The text of a parameter consists of declarations again. -/
def declare : Nat → Declaration → Check Unit
  | _, .entity name content => declareEntity name content
  | _, .parameter name content => declareParameter name content
  | _, .attributes element rules => rules.forM (declareAttribute element)
  | _, .notationName name => faultIf (name.toList.contains ':')
  | _, .instruction target => instruction target
  | _, .other => pure ()
  | 0, .parameterReference _ => refuse
  | depth + 1, .parameterReference name => do
    modify fun p => { p with hasOutside := true }
    match (← get).parameters.lookup name with
    | none => undeclared
    | some (.internal text) =>
      charge (byteLength text)
      let inner ← ofOption (declarations? (Text.unifyLineEnds text))
      inner.forM (declare depth)
    | some _ => pure ()

end Check

end TypedResources.Markup

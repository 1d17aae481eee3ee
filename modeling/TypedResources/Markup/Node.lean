/-!
Documents as trees. References to entities in content stay references; in attribute values they are
replaced.
-/

namespace TypedResources.Markup

/-- A name with the identifier of its namespace, if it is in one. -/
structure ExpandedName where
  space : Option String
  localName : String
  deriving DecidableEq, Repr

structure Attribute where
  name : ExpandedName
  value : String
  deriving DecidableEq, Repr

inductive Node
  | element (name : ExpandedName) (attributes : List Attribute) (children : List Node)
  | text (text : String)
  | reference (entity : String)

namespace Node

/-- The attribute of a name that is in no namespace. -/
def attribute? (node : Node) (name : String) : Option String :=
  match node with
  | element _ attributes _ => (attributes.find? (·.name = ⟨none, name⟩)).map (·.value)
  | _ => none

def children : Node → List Node
  | element _ _ children => children
  | _ => []

/-- Whether a node is an element of a name that is in no namespace. -/
def isElement (name : String) : Node → Bool
  | element found _ _ => found = ⟨none, name⟩
  | _ => false

mutual

/-- All text below a node. References are shown as they are written. -/
def innerText : Node → String
  | .element _ _ children => innerTexts children
  | .text shown => shown
  | .reference entity => "&" ++ entity ++ ";"

def innerTexts : List Node → String
  | [] => ""
  | node :: rest => innerText node ++ innerTexts rest

end

theorem innerTexts_append (xs ys : List Node) :
    innerTexts (xs ++ ys) = innerTexts xs ++ innerTexts ys := by
  induction xs with
  | nil => simp [innerTexts]
  | cons x xs ih => simp [innerTexts, ih, String.append_assoc]

end Node

end TypedResources.Markup

import TypedResources.Markup.Name

/-!
Qualified names and the scopes in which qualifiers are bound to namespaces.
-/

namespace TypedResources.Markup

/-- A written name taken apart. A faulty name has colons in wrong places. -/
structure QualifiedName where
  qualifier : Option String
  localName : String
  isFaulty : Bool
  deriving DecidableEq, Repr

namespace QualifiedName

/-- The part before the first colon and the part after it, if there is a colon. -/
def splitColon (cs : List Char) : Option (List Char × List Char) :=
  match cs.dropWhile (· != ':') with
  | [] => none
  | _ :: after => some (cs.takeWhile (· != ':'), after)

def beginsPlain (cs : List Char) : Bool := cs.head?.any fun c => isNameStart c && c != ':'

/-- Take a name apart. A third part that could not begin a name is refused. -/
def ofText? (cs : List Char) : Option QualifiedName :=
  match splitColon cs with
  | none => some ⟨none, String.ofList cs, false⟩
  | some (before, after) =>
    if before = [] || !beginsPlain after then some ⟨none, String.ofList cs, true⟩
    else
      match splitColon after with
      | none => some ⟨some (String.ofList before), String.ofList after, false⟩
      | some (_, more) =>
        if more = [] || more.head?.any isNameStart then
          some ⟨some (String.ofList before), String.ofList after, true⟩
        else none

end QualifiedName

/-- Bindings of qualifiers, the innermost first; the default namespace has no qualifier. -/
abbrev Scope := List (Option String × String)

namespace Scope

def xmlSpace : String := "http://www.w3.org/XML/1998/namespace"

def bindingSpace : String := "http://www.w3.org/2000/xmlns/"

/-- The namespace of a qualifier, or the default namespace. An empty identifier is none. -/
def find (scope : Scope) (qualifier : Option String) : Option String :=
  if qualifier = some "xml" then some xmlSpace else (scope.lookup qualifier).filter (· ≠ "")

end Scope

end TypedResources.Markup

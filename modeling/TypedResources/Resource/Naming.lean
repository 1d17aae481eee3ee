import TypedResources.Path.Absolute

/-!
Default names from the place of a resource below the project directory: the components between
them, joined by dots.
-/

namespace TypedResources.Naming

open TypedResources.Path

/-- Separators of both kinds become dots. -/
def dotted (relative : List Char) : List Char :=
  relative.map fun c => if c = '/' ∨ c = '\\' then '.' else c

def dropEndDots (cs : List Char) : List Char := (cs.reverse.dropWhile (· == '.')).reverse

/-- Where a resource lies below the project directory; nothing if it lies elsewhere. -/
def below? (current project resource : List Char) : Option (List Char) :=
  Path.below? (withEndSlash (absolute current project)) (absolute current resource)

def directoryBelow? (current project resource : List Char) : Option (List Char) :=
  Path.below? (withEndSlash (absolute current project))
    (withEndSlash (dirName (absolute current resource)))

/-- The root name alone for the project directory itself, a longer name below it. -/
def qualify (root : String) (tidy : List Char → List Char) (relative : List Char) : String :=
  if relative = [] then root else root ++ "." ++ String.ofList (tidy relative)

def resourceName? (current root project resource : String) : Option String :=
  (below? current.toList project.toList resource.toList).map (qualify root dotted)

/-- The default namespace: that of the directory, without dots at its end. -/
def namespace? (current root project resource : String) : Option String :=
  (directoryBelow? current.toList project.toList resource.toList).map
    (qualify root fun relative => dropEndDots (dotted relative))

end TypedResources.Naming

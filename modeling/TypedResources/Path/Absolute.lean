import TypedResources.Path.Basic

/-!
Absolute paths in normal form: no empty component, no `.` and no `..`.
-/

namespace TypedResources.Path

/-- An absolute path. Exactly two leading slashes are kept apart from one. -/
structure Absolute where
  twoSlashes : Bool
  components : List (List Char)
  deriving DecidableEq, Repr

/-- Take one component into account; the nearest component comes first. -/
def pushComponent (stack : List (List Char)) (component : List Char) : List (List Char) :=
  if component = [] ∨ component = ['.'] then stack
  else if component = ['.', '.'] then stack.tail
  else component :: stack

/-- The components that a text names once `.` and `..` are worked off. -/
def components (path : List Char) : List (List Char) :=
  ((path.splitOn '/').foldl pushComponent []).reverse

def startsWithTwoSlashes : List Char → Bool
  | '/' :: '/' :: '/' :: _ => false
  | '/' :: '/' :: _ => true
  | _ => false

/-- The slashes that a path begins with, of which more than two count as one. -/
def rootSlashes (path : List Char) : List Char :=
  if startsWithTwoSlashes path then ['/', '/']
  else if path.head? = some '/' then ['/']
  else []

/-- The components of a path as written, without empty ones and without `.`. -/
def parts (path : List Char) : List (List Char) :=
  (path.splitOn '/').filter fun c => c ≠ [] ∧ c ≠ ['.']

def tidy (path : List Char) : List Char :=
  if rootSlashes path = [] ∧ parts path = [] then ['.']
  else rootSlashes path ++ List.intercalate ['/'] (parts path)

def Absolute.ofText (current path : List Char) : Absolute :=
  ⟨startsWithTwoSlashes (join current path), Path.components (join current path)⟩

def Absolute.toText (a : Absolute) : List Char :=
  (if a.twoSlashes then ['/', '/'] else ['/']) ++ List.intercalate ['/'] a.components

def absolute (current path : List Char) : List Char := (Absolute.ofText current path).toText

/-- What follows a directory in a path that lies in it, without the slash between them. Both are
given in normal form, the directory with its end slash. -/
def below? (dir path : List Char) : Option (List Char) :=
  if dir.isPrefixOf path then some (path.drop dir.length) else none

end TypedResources.Path

/-!
Directory trees.
-/

namespace TypedResources

/-- A file with its bytes, or a directory with its named items. -/
inductive Tree
  | file (bytes : ByteArray)
  | directory (items : List (String × Tree))

namespace Tree

def empty : Tree := directory []

def items : Tree → List (String × Tree)
  | file _ => []
  | directory items => items

/-- Follow a path from a tree, with the directories above it at hand for steps up. -/
def followFrom? (above : List Tree) (tree : Tree) : List String → Option Tree
  | [] => some tree
  | name :: path =>
    match tree with
    | file _ => none
    | directory items =>
      if name = ".." then
        match above with
        | parent :: others => followFrom? others parent path
        | [] => none
      else (items.lookup name).bind fun inner => followFrom? (tree :: above) inner path

/-- What a path leads to; a step above the tree leads nowhere. -/
def follow? (tree : Tree) (path : List String) : Option Tree := followFrom? [] tree path

/-- The items with one of them replaced, or put at the end if the name is new. -/
def put (name : String) (tree : Tree) (items : List (String × Tree)) : List (String × Tree) :=
  if items.any (·.1 = name) then items.map fun (n, t) => if n = name then (n, tree) else (n, t)
  else items ++ [(name, tree)]

def write (bytes : ByteArray) : List String → Tree → Tree
  | [], _ => file bytes
  | name :: path, tree =>
    directory (put name (write bytes path ((tree.items.lookup name).getD empty)) tree.items)

def makeDirectory : List String → Tree → Tree
  | [], tree => tree
  | name :: path, tree =>
    directory (put name (makeDirectory path ((tree.items.lookup name).getD empty)) tree.items)

def delete : List String → Tree → Tree
  | [], tree => tree
  | [name], tree => directory (tree.items.filter (·.1 ≠ name))
  | name :: path, tree =>
    match tree.items.lookup name with
    | some inner => directory (put name (delete path inner) tree.items)
    | none => tree

mutual

def paths : Tree → List (List String)
  | file _ => []
  | directory items => pathsOfAll items

def pathsOfAll : List (String × Tree) → List (List String)
  | [] => []
  | (name, tree) :: rest => [name] :: (paths tree).map (name :: ·) ++ pathsOfAll rest

end

end Tree

end TypedResources

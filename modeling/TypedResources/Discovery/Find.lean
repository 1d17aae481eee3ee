import TypedResources.Discovery.Tree
import TypedResources.Path.Absolute
import TypedResources.Resource.File
import TypedResources.Text.Decode
import TypedResources.Unicode.Case

/-!
Finding the resource files of a directory. They come in the order of their paths, compared component
by component; their text is read later, when the tree may have changed.
-/

namespace TypedResources.Discovery

/-- The part of a name from its last dot on, unless that dot is at one end of the name. -/
def suffix (name : List Char) : List Char :=
  match Path.splitLastDot name with
  | some (before, after) => if before = [] ∨ after = [] then [] else '.' :: after
  | none => []

/-- Names of resource files; nothing but an extension is none. -/
def isResourceName (name : String) : Bool :=
  Unicode.lowerChars (suffix name.toList) = ".resx".toList

def precedes (a b : List String) : Bool := !decide (b < a)

def resourcePaths (tree : Tree) : List (List String) :=
  (tree.paths.filter fun path => path.getLast?.any isResourceName).mergeSort precedes

def readContent (tree : Tree) (path : List String) : Except ReadFault (Option String) :=
  match tree.follow? path with
  | none => .error .notFound
  | some (.directory _) => .error .isDirectory
  | some (.file bytes) =>
    match Text.decodeMarked? bytes with
    | some text => .ok (some text)
    | none => .error .undecodable

def parts (path : String) : List String := (Path.parts path.toList).map String.ofList

/-- What a root leads to; an absolute one leads out of the tree. -/
def start? (tree : Tree) (root : String) : Option Tree :=
  if Path.rootSlashes root.toList = [] then tree.follow? (parts root) else none

def pathText (root : String) (path : List String) : String :=
  String.ofList (Path.rootSlashes root.toList ++
    List.intercalate ['/'] ((parts root ++ path).map String.toList))

/-- The resource files below a tree that a root leads to, with what reading them gives. -/
def filesBelow (tree : Tree) (root : String)
    (read : List String → Except ReadFault (Option String)) : List ResourceFile :=
  (resourcePaths tree).map fun path => ⟨pathText root path, false, read path⟩

/-- The resource files below a root, found in one tree and read in another. -/
def files (found later : Tree) (root : String) : List ResourceFile :=
  match start? found root with
  | none => []
  | some tree => filesBelow tree root fun path => readContent later (parts root ++ path)

end TypedResources.Discovery

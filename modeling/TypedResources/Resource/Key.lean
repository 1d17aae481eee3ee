import TypedResources.Path.Basic
import TypedResources.Unicode.Case

/-!
The key of a resource file: its path without extension and culture segment. Files with one key
hold the same resources in different languages.
-/

namespace TypedResources.Key

open Unicode

def isAsciiLetter (c : Char) : Bool := ('a' ≤ c && c ≤ 'z') || ('A' ≤ c && c ≤ 'Z')

/-- A culture: two letters, perhaps a hyphen and two more. A final line feed is tolerated. -/
def isCulture : List Char → Bool
  | [a, b] | [a, b, '\n'] => isAsciiLetter a && isAsciiLetter b
  | [a, b, '-', c, d] | [a, b, '-', c, d, '\n'] => [a, b, c, d].all isAsciiLetter
  | _ => false

def stripCulture (cs : List Char) : List Char :=
  match Path.splitLastDot cs with
  | some (before, after) => if isCulture after then before else cs
  | none => cs

def keyChars (path : List Char) : List Char :=
  stripCulture (Path.join (Path.dirName path) (Path.stem (Path.baseName path)))

/-- The key of a path, in the letter case of the path. -/
def ofPath (path : String) : String := String.ofList (keyChars path.toList)

/-- The key in lower case, by which files are put together. -/
def folded (path : String) : String := lower (ofPath path)

/-- A path names a resource file when it ends with the extension, in any letter case. -/
def isResourcePath (path : String) : Bool :=
  ".resx".toList.isSuffixOf (lowerChars path.toList)

/-- Paths compare without their extension first, so a neutral file comes before its cultures. -/
def order (path : String) : String × String :=
  (String.ofList (Path.withoutExtension path.toList), path)

def orderedBefore (a b : String) : Bool :=
  (order a).1 < (order b).1 || ((order a).1 = (order b).1 && !decide (b < a))

end TypedResources.Key

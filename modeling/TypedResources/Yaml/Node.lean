import TypedResources.Yaml.Tag

/-!
The nodes of a document: scalars, sequences and mappings, each with its tag. Aliases are replaced by
the nodes that they name.
-/

namespace TypedResources.Yaml

inductive Node
  | scalar (tag : Tag) (text : String)
  | sequence (tag : Tag) (items : List Node)
  | mapping (tag : Tag) (entries : List (Node × Node))
  deriving Repr

namespace Node

def tag : Node → Tag
  | scalar tag _ | sequence tag _ | mapping tag _ => tag

def withTag (tag : Tag) : Node → Node
  | scalar _ text => scalar tag text
  | sequence _ items => sequence tag items
  | mapping _ entries => mapping tag entries

def nothing : Node := scalar .null ""

mutual

def mentions (tag : Tag) : Node → Bool
  | scalar t _ => t = tag
  | sequence t items => t = tag || mentionedIn tag items
  | mapping t entries => t = tag || mentionedInEntries tag entries

def mentionedIn (tag : Tag) : List Node → Bool
  | [] => false
  | item :: rest => item.mentions tag || mentionedIn tag rest

def mentionedInEntries (tag : Tag) : List (Node × Node) → Bool
  | [] => false
  | (key, value) :: rest =>
    key.mentions tag || value.mentions tag || mentionedInEntries tag rest

end

mutual

def depth : Node → Nat
  | scalar _ _ => 0
  | sequence _ items => depthOfAll items + 1
  | mapping _ entries => depthOfEntries entries + 1

def depthOfAll : List Node → Nat
  | [] => 0
  | item :: rest => max item.depth (depthOfAll rest)

def depthOfEntries : List (Node × Node) → Nat
  | [] => 0
  | (key, value) :: rest => max (max key.depth value.depth) (depthOfEntries rest)

end

end Node

end TypedResources.Yaml

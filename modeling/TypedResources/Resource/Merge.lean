import TypedResources.Resource.Entry

/-!
Merging entries by name. The first entry of a name keeps its place, value and type; later ones only
supply a comment that is still missing.
-/

namespace TypedResources.Merge

def fillComment (e : Entry) (comment : Option String) : Entry :=
  e.withComment (e.comment.or comment)

def add (merged : List Entry) (e : Entry) : List Entry :=
  if merged.any (·.name == e.name) then
    merged.map fun x => if x.name = e.name then fillComment x e.comment else x
  else merged ++ [e]

def addAll (merged entries : List Entry) : List Entry := entries.foldl add merged

def entries (batch : List Entry) : List Entry := addAll [] batch

theorem addAll_append (merged xs ys : List Entry) :
    addAll merged (xs ++ ys) = addAll (addAll merged xs) ys := by
  simp [addAll]

end TypedResources.Merge

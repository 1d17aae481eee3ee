import TypedResources.Resource.File
import TypedResources.Resource.Key

/-!
Groups of resource files. Every group holds the files of one folded key, in the order of their
paths, and takes its own key from the first of them. The result does not depend on input order.
-/

namespace TypedResources

/-- The language variants of one resource, the neutral file first. -/
structure ResourceGroup where
  key : String
  files : List ResourceFile

namespace ResourceGroup

def paths (g : ResourceGroup) : List String := g.files.map (·.path)

def sortFiles (files : List ResourceFile) : List ResourceFile :=
  files.mergeSort fun a b => Key.orderedBefore a.path b.path

def ofFiles? (files : List ResourceFile) : Option ResourceGroup :=
  match sortFiles files with
  | [] => none
  | first :: rest => some ⟨Key.ofPath first.path, first :: rest⟩

def keyed (files : List ResourceFile) : List (String × ResourceFile) :=
  (files.filter fun f => Key.isResourcePath f.path).map fun f => (Key.folded f.path, f)

def membersOf (key : String) (keyedFiles : List (String × ResourceFile)) : List ResourceFile :=
  (keyedFiles.filter (·.1 = key)).map (·.2)

/-- One group per folded key, in no particular order yet. -/
def ofKeyed (keyedFiles : List (String × ResourceFile)) : List ResourceGroup :=
  (keyedFiles.map (·.1)).eraseDups.filterMap fun key => ofFiles? (membersOf key keyedFiles)

def ofAll (files : List ResourceFile) : List ResourceGroup :=
  (ofKeyed (keyed files)).mergeSort fun a b => decide (a.key ≤ b.key)

end ResourceGroup

end TypedResources

import TypedResources.Markup.Document
import TypedResources.Resource.Entry

/-!
Resource documents: the records are the `data` children of a `root` element.
-/

namespace TypedResources.Resx

open Markup

/-- The entry of a `data` element; its value is the text of its first `value` child. -/
def entryOf (node : Node) : Entry where
  name := node.attribute? "name"
  value := (node.children.find? (·.isElement "value")).map (·.innerText)
  comment := node.attribute? "comment"
  type := node.attribute? "type"

/-- The entries below a root element; other roots hold none. -/
def entriesOf (root : Node) : List Entry :=
  if root.isElement "root" then (root.children.filter (·.isElement "data")).map entryOf else []

def parse (text : String) : Option (List Entry) := (readDocument text).map entriesOf

end TypedResources.Resx

import TypedResources.Settings.Resolve
import TypedResources.Text.Lines

/-!
The debug header: a comment block that shows what went into a group's settings and what came out.
-/

namespace TypedResources.Header

def boolText (b : Bool) : String := if b then "true" else "false"

def optionText (value : Option String) : String := value.getD ""

def rows (key : String) (paths : List String) (s : Settings) : List (String × String) :=
  [("key", key),
    ("files", Text.commaSeparated paths),
    ("RootNamespace (metadata)", optionText s.rootNamespaceOption),
    ("ProjectDir (metadata)", optionText s.projectDirOption),
    ("Namespace / DefaultResourcesNamespace (metadata)", optionText s.namespaceOption),
    ("ResourceName (metadata)", optionText s.resourceNameOption),
    ("ClassName (metadata)", optionText s.classNameOption),
    ("UseInstanceMembers (metadata)", optionText s.useInstanceMembersOption),
    ("AssemblyName", optionText (s.assemblyName.map (·.shown))),
    ("RootNamespace (computed)", s.rootNamespace.shown),
    ("ProjectDir (computed)", s.projectDir),
    ("defaultNamespace", optionText s.defaultNamespace),
    ("defaultResourceName", optionText s.defaultResourceName),
    ("Namespace", optionText s.targetNamespace),
    ("ResourceName", optionText s.resourceName),
    ("ClassName", s.className),
    ("UseInstanceMembers", boolText s.useInstanceMembers)]

def lines (key : String) (paths : List String) (s : Settings) : List String :=
  ["", "// Debug info:"] ++
    (rows key paths s).map fun (label, text) => "// " ++ label ++ ": " ++ text

def render (key : String) (paths : List String) (s : Settings) : String :=
  Text.unlines (lines key paths s)

end TypedResources.Header

import TypedResources.Identifier
import TypedResources.Render.Plumbing
import TypedResources.Render.Summary
import TypedResources.Resource.Placeholder
import TypedResources.Text.Lines

/-!
The generated class: one accessor per named entry, sorted by name, and a catalog of names in the
order of the entries.
-/

namespace TypedResources

inductive Accessor
  /-- A string property, with format methods of `arity + 1` arguments if there is an arity. -/
  | text (name : String) (summary : String) (arity : Option Nat)
  /-- A property of the named type. -/
  | object (name : String) (typeName : String)
  deriving DecidableEq, Repr

namespace Accessor

def name : Accessor → String
  | text name _ _ | object name _ => name

def ofEntry (name : String) (e : Entry) : Except Failure Accessor := do
  if e.isText then
    let summary ← Summary.render e
    let arity ← Placeholder.arity e.value
    return text name summary arity
  else
    return object name (e.fullTypeName.getD "")

def argument (i : Nat) : String := "arg" ++ toString i

def parameters (arity : Nat) : String :=
  Text.commaSeparated ((List.range (arity + 1)).map fun i => "object? " ++ argument i)

def arguments (arity : Nat) : String :=
  Text.commaSeparated ((List.range (arity + 1)).map argument)

def formatLines (shared name summary : String) (arity : Nat) : List String :=
  ["        /// " ++ summary,
    "        public " ++ shared ++ "string? Format" ++ Identifier.sanitize name ++
      "(global::System.Globalization.CultureInfo? provider, " ++ parameters arity ++ ")",
    "            => GetString(provider, \"" ++ name ++ "\", " ++ arguments arity ++ ");",
    "",
    "        /// " ++ summary,
    "        public " ++ shared ++ "string? Format" ++ Identifier.sanitize name ++
      "(" ++ parameters arity ++ ")",
    "            => GetString(\"" ++ name ++ "\", " ++ arguments arity ++ ");",
    ""]

def lines (shared : String) : Accessor → List String
  | text name summary arity =>
    ["        /// " ++ summary,
      "        public " ++ shared ++ "string? @" ++ Identifier.sanitize name,
      "            => GetString(\"" ++ name ++ "\");",
      ""] ++
    match arity with
    | none => []
    | some n => formatLines shared name summary n
  | object name typeName =>
    ["        public " ++ shared ++ "global::" ++ typeName ++ "? @" ++ Identifier.sanitize name,
      "            => (global::" ++ typeName ++ "?)GetObject(\"" ++ name ++ "\");",
      ""]

end Accessor

structure AccessorClass where
  scope : Option String
  style : Plumbing.Style
  accessors : List Accessor
  names : List String
  deriving DecidableEq, Repr

namespace AccessorClass

def named (entries : List Entry) : List (String × Entry) :=
  entries.filterMap fun e => e.accessorName?.map (·, e)

/-- Named entries by rising name; entries of one name keep their order. -/
def sortByName (entries : List (String × Entry)) : List (String × Entry) :=
  entries.mergeSort fun a b => decide (a.1 ≤ b.1)

def ofEntries (scope : Option String) (style : Plumbing.Style) (entries : List Entry) :
    Except Failure AccessorClass := do
  let accessors ← (sortByName (named entries)).mapM fun (name, e) => Accessor.ofEntry name e
  return ⟨scope, style, accessors, (named entries).map (·.1)⟩

def constantLine (name : String) : String :=
  "        public const string @" ++ Identifier.sanitize name ++ " = \"" ++ name ++ "\";"

def opening (c : AccessorClass) : List String :=
  ["", "#nullable enable"] ++
  (match c.scope with
    | some scope => ["namespace " ++ scope, "\x7b"]
    | none => []) ++
  ["    internal partial class " ++ c.style.className,
    "    \x7b",
    "        private " ++ c.style.shared ++
      "global::System.Resources.ResourceManager? resourceMan;",
    "",
    "        public " ++ c.style.className ++ "() \x7b \x7d"] ++
  Plumbing.lines c.style

def middle (c : AccessorClass) : List String :=
  ["    \x7d", "", "    internal partial class " ++ c.style.className ++ "Names", "    \x7b"]

def closing (c : AccessorClass) : List String :=
  ["    \x7d"] ++ (if c.scope.isSome then ["\x7d"] else [])

def lines (c : AccessorClass) : List String :=
  opening c ++ c.accessors.flatMap (Accessor.lines c.style.shared) ++ middle c ++
    c.names.map constantLine ++ closing c

def render (c : AccessorClass) : String := Text.unlines c.lines

end AccessorClass

end TypedResources

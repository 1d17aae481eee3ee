import TypedResources.Config.Merge
import TypedResources.Path.Absolute
import TypedResources.Report.Log
import TypedResources.Text.Decode
import TypedResources.Yaml.Document
import TypedResources.Yaml.Meaning

/-!
Loading a configuration: the mapping in a file, laid over the defaults. A file that is not there,
and one with nothing in it, configure nothing.
-/

namespace TypedResources.Config

inductive LoadFault
  | isDirectory
  | undecodable
  /-- The file holds no document that can be read. -/
  | unreadable (fault : Yaml.Fault)
  /-- The document is something else than a mapping. -/
  | notMapping
  deriving DecidableEq, Repr

/-- What a host finds at the path of a configuration. -/
inductive Source
  | missing
  | directory
  | file (bytes : ByteArray)

/-- What is configured where nothing is said. -/
def defaults : Entries :=
  [(.text "assembly_name", .null), (.text "supports_nullable_attributes", .bool true),
    (.text "max_workers", .int 1), (.text "global_options", .map []),
    (.text "file_options", .map [])]

/-- The entries of a document's value; values that are not set have none. -/
def entriesOf (value : Value) : Except LoadFault Entries :=
  match value with
  | .map entries => .ok entries
  | value => if value.isSet then .error .notMapping else .ok []

def readValue (text : String) : Except Yaml.Fault Value :=
  (Yaml.readDocument text.toList).bind Yaml.valueOf

def ofBytes (bytes : ByteArray) : Except LoadFault Entries :=
  match Text.decode? bytes with
  | none => .error .undecodable
  | some text =>
    match readValue text with
    | .error fault => .error (.unreadable fault)
    | .ok value => (entriesOf value).map (merge defaults)

structure Loaded where
  entries : Entries
  log : List LogRecord

def missingRecord (path : String) : LogRecord :=
  ⟨.info, .configuring,
    "Config file " ++ String.ofList (Path.tidy path.toList) ++ " not found, using defaults"⟩

/-- Load the configuration at a path; an empty path stands for none. -/
def load (path : String) (source : Source) : Except LoadFault Loaded :=
  if path = "" then .ok ⟨defaults, []⟩
  else
    match source with
    | .missing => .ok ⟨defaults, [missingRecord path]⟩
    | .directory => .error .isDirectory
    | .file bytes => (ofBytes bytes).map fun entries => ⟨entries, []⟩

end TypedResources.Config

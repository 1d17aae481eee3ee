import TypedResources.Config.Text
import TypedResources.Path.Basic
import TypedResources.Settings.Options

/-!
The options that a configuration sets, globally and for single files. Values that are null set
nothing, and every other value sets its text.
-/

namespace TypedResources.Config

inductive SettingFault
  /-- The options of the files are set, but not by a mapping. -/
  | optionsNotMapping
  /-- A path, an option or its value is a number of too many digits, or holds one. -/
  | unwritable
  /-- A number of workers is a text that is no number, or no number at all. -/
  | notWhole
  /-- A number of workers is infinite. -/
  | unbounded
  /-- A number of workers is neither a number nor a text. -/
  | notNumeric
  deriving DecidableEq, Repr

/-- The options that entries set; keys with one text set one option. -/
def optionsOfEntries (entries : Entries) : List (String × String) :=
  entries.foldl
    (fun table (key, value) =>
      if value.isNull then table else OptionTable.assign key.shown value.optionText table) []

def optionsOf : Option Value → List (String × String)
  | some (.map entries) => optionsOfEntries entries
  | _ => []

def canSet : Option Value → Bool
  | some (.map entries) =>
    entries.all fun (key, value) => value.isNull || (key.isWritable && value.isWritable)
  | _ => true

/-- The path of a file's options, taken from a base directory if there is one. -/
def optionPath (base : Option String) (key : Scalar) : String :=
  match base with
  | some dir => String.ofList (Path.join dir.toList key.shown.toList)
  | none => key.shown

/-- The options of files. Of several mappings for one path only the last counts. -/
def fileOptions (base : Option String) (entries : Entries) :
    List (String × List (String × String)) :=
  entries.foldl
    (fun table (key, value) =>
      OptionTable.assign (optionPath base key) (optionsOf (some value)) table) []

def section? : Option Value → Except SettingFault Entries
  | some (.map entries) => .ok entries
  | some value => if value.isSet then .error .optionsNotMapping else .ok []
  | none => .ok []

def options (config : Entries) (base : Option String) : Except SettingFault OptionTable := do
  let files ← section? (config.get? "file_options")
  let canSetFiles := files.all fun (path, value) => path.isWritable && canSet (some value)
  if canSetFiles && canSet (config.get? "global_options") then
    return { global := optionsOf (config.get? "global_options"), files := fileOptions base files }
  else throw .unwritable

end TypedResources.Config

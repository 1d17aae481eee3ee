import TypedResources.Report.Reporter
import TypedResources.Settings.Options

/-!
Looking up one option for a group of files. The files that set the option have to agree; if they do
not, or if none sets it, a global value may stand in.
-/

namespace TypedResources.Lookup

def conflict? (options : Options) (name value : String) (paths : List String) : Option String :=
  paths.find? fun path => (options.file path name).any (· ≠ value)

/-- The value that the files agree on, or the first file that disagrees with those before it. -/
def fileValue (options : Options) (name : String) : List String → Except String (Option String)
  | [] => .ok none
  | path :: rest =>
    match options.file path name with
    | none => fileValue options name rest
    | some value =>
      match conflict? options name value rest with
      | some other => .error other
      | none => .ok (some value)

def isSet (value : Option String) : Option String := value.filter (· ≠ "")

def globalValue (options : Options) (globalName : Option String) : Option String :=
  isSet (globalName.bind options.global)

/-- The value of an option for the files of a group, and the conflict to report. -/
def find (options : Options) (name : String) (globalName : Option String) (paths : List String) :
    Option String × List Diagnostic :=
  match fileValue options name paths with
  | .error other => (globalValue options globalName, [.inconsistentOption name other])
  | .ok value => ((isSet value).or (globalValue options globalName), [])

/-- The value of an option. A reporter is told of the conflict. -/
def look (options : Options) (name : String) (globalName : Option String) (paths : List String)
    (reporter : Reporter) : Option String × Reporter :=
  let found := find options name globalName paths
  (found.1, reporter.reportAll found.2)

end TypedResources.Lookup

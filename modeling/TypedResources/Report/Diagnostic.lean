/-!
Diagnostics: problems of the input that a run reports and survives, each located at a file.
-/

namespace TypedResources

inductive Diagnostic
  | unreadableFile (path : String)
  | unresolvedNamespace (path : String)
  | unresolvedResourceName (path : String)
  | inconsistentOption (option path : String)
  deriving DecidableEq, Repr

namespace Diagnostic

def id : Diagnostic → String
  | unreadableFile _ => "RESXG001"
  | unresolvedNamespace _ => "RESXG002"
  | unresolvedResourceName _ => "RESXG003"
  | inconsistentOption _ _ => "RESXG004"

def title : Diagnostic → String
  | unreadableFile _ => "Couldn't parse Resx file"
  | unresolvedNamespace _ => "Couldn't compute namespace"
  | unresolvedResourceName _ => "Couldn't compute resource name"
  | inconsistentOption _ _ => "Inconsistent properties"

def path : Diagnostic → String
  | unreadableFile path | unresolvedNamespace path | unresolvedResourceName path
  | inconsistentOption _ path => path

def arguments : Diagnostic → List String
  | inconsistentOption option path => [option, path]
  | d => [d.path]

def message : Diagnostic → String
  | unreadableFile path => "Couldn't parse Resx file '" ++ path ++ "'"
  | unresolvedNamespace path => "Couldn't compute namespace for file '" ++ path ++ "'"
  | unresolvedResourceName path => "Couldn't compute resource name for file '" ++ path ++ "'"
  | inconsistentOption option path =>
    "Property '" ++ option ++ "' values for '" ++ path ++ "' are inconsistent"

def severity (_ : Diagnostic) : String := "warning"

end Diagnostic

end TypedResources

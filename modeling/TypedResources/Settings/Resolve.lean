import TypedResources.Failure
import TypedResources.Identifier
import TypedResources.Resource.Group
import TypedResources.Resource.Naming
import TypedResources.Settings.Lookup
import TypedResources.Unicode.Blank
import TypedResources.Unicode.Case

/-!
The settings of one group: its options, the defaults that its place gives, and the names that
follow from both.
-/

namespace TypedResources

/-- A configured name. A value that is not a text can be shown but not joined to other names. -/
inductive Label
  | text (value : String)
  | other (shown : String) (isSet : Bool)
  deriving DecidableEq, Repr

namespace Label

/-- Empty texts and empty values count as unset. -/
def isSet : Label → Bool
  | text value => value ≠ ""
  | other _ isSet => isSet

def shown : Label → String
  | text value => value
  | other shown _ => shown

/-- The label as a text that other names can be joined to. -/
def asText : Label → Except Failure String
  | text value => .ok value
  | other _ _ => .error .foreignName

end Label

structure Settings where
  rootNamespaceOption : Option String
  projectDirOption : Option String
  namespaceOption : Option String
  resourceNameOption : Option String
  classNameOption : Option String
  useInstanceMembersOption : Option String
  assemblyName : Option Label
  rootNamespace : Label
  projectDir : String
  defaultNamespace : Option String
  defaultResourceName : Option String
  targetNamespace : Option String
  resourceName : Option String
  className : String
  useInstanceMembers : Bool
  deriving DecidableEq, Repr

namespace Settings

/-- Only "true" means true, whatever its letter case and the white space around it. -/
def parseBool (value : Option String) : Bool :=
  value.any fun v => Unicode.lowerChars (Unicode.trimChars v.toList) = "true".toList

/-- An option, or else the assembly name if set, or else the empty text. -/
def orAssembly (option : Option String) (assembly : Option Label) : Label :=
  match option with
  | some value => .text value
  | none => (assembly.filter (·.isSet)).getD (.text "")

/-- A default name below a root, which has to be a text as soon as there is a name to make. -/
def underRoot (name : String → Option String) : Label → Except Failure (Option String)
  | .text root => .ok (name root)
  | .other _ _ => if (name "").isSome then .error .foreignName else .ok none

def defaultClassName (key : String) : String :=
  String.ofList (Identifier.sanitizeChars (Path.stem (Path.baseName key.toList)))

def unresolved (path : String) (targetNamespace resourceName : Option String) : List Diagnostic :=
  (if targetNamespace.isNone then [.unresolvedNamespace path] else []) ++
    (if resourceName.isNone then [.unresolvedResourceName path] else [])

structure Choices where
  rootNamespace : Option String
  projectDir : Option String
  targetNamespace : Option String
  resourceName : Option String
  className : Option String
  useInstanceMembers : Option String
  deriving DecidableEq, Repr

def choose (options : Options) (paths : List String) (reporter : Reporter) : Choices × Reporter :=
  let look name globalName := Lookup.look options name globalName paths
  let (rootNamespace, reporter) := look "RootNamespace" (some "RootNamespace") reporter
  let (projectDir, reporter) := look "ProjectDir" (some "ProjectDir") reporter
  let (targetNamespace, reporter) := look "Namespace" (some "DefaultResourcesNamespace") reporter
  let (resourceName, reporter) := look "ResourceName" none reporter
  let (className, reporter) := look "ClassName" none reporter
  let (useInstanceMembers, reporter) := look "UseInstanceMembers" none reporter
  (⟨rootNamespace, projectDir, targetNamespace, resourceName, className, useInstanceMembers⟩,
    reporter)

def ofChoices (current : String) (assemblyName : Option Label) (g : ResourceGroup)
    (choices : Choices) : Except Failure Settings := do
  let rootNamespace := orAssembly choices.rootNamespace assemblyName
  let projectDir ← (orAssembly choices.projectDir assemblyName).asText
  let defaultResourceName ←
    underRoot (fun root => Naming.resourceName? current root projectDir g.key) rootNamespace
  let defaultNamespace ←
    underRoot (fun root => Naming.namespace? current root projectDir g.key) rootNamespace
  match g.files with
  | [] => throw .emptyGroup
  | _ => return {
      rootNamespaceOption := choices.rootNamespace
      projectDirOption := choices.projectDir
      namespaceOption := choices.targetNamespace
      resourceNameOption := choices.resourceName
      classNameOption := choices.className
      useInstanceMembersOption := choices.useInstanceMembers
      assemblyName
      rootNamespace
      projectDir
      defaultNamespace
      defaultResourceName
      targetNamespace := choices.targetNamespace.or defaultNamespace
      resourceName := choices.resourceName.or defaultResourceName
      className := choices.className.getD (defaultClassName g.key)
      useInstanceMembers := parseBool choices.useInstanceMembers }

/-- Report the names that a group's settings lack, at its first file. -/
def reportNames (g : ResourceGroup) (s : Settings) (reporter : Reporter) : Reporter :=
  match g.files with
  | [] => reporter
  | first :: _ => reporter.reportAll (unresolved first.path s.targetNamespace s.resourceName)

/-- Resolve the settings of a group. A reporter is told what is wrong with its options. -/
def resolveWith (current : String) (options : Options) (assemblyName : Option Label)
    (g : ResourceGroup) (reporter : Reporter) : Except Failure Settings × Reporter :=
  let (choices, reporter) := choose options g.paths reporter
  match ofChoices current assemblyName g choices with
  | .ok settings => (.ok settings, reportNames g settings reporter)
  | .error failure => (.error failure, reporter)

def resolve (current : String) (options : Options) (assemblyName : Option Label)
    (g : ResourceGroup) : Except Failure (Settings × List Diagnostic) :=
  let (settings, reporter) := resolveWith current options assemblyName g Reporter.empty
  settings.map (·, reporter.diagnostics)

end Settings

end TypedResources

import TypedResources.Render.AccessorClass
import TypedResources.Render.Header
import TypedResources.Report.Reporter
import TypedResources.Run.Loading

/-!
Generating: one artifact per group, whatever its files hold. Groups are worked off by rising key,
and artifacts and diagnostics come in that order.
-/

namespace TypedResources

structure Artifact where
  hintName : String
  text : String
  deriving DecidableEq, Repr

structure Output where
  artifacts : List Artifact
  diagnostics : List Diagnostic
  deriving DecidableEq, Repr

def Output.indexOf? (o : Output) (hintName : String) : Option Nat :=
  o.artifacts.findIdx? (·.hintName = hintName)

def Output.artifact? (o : Output) (hintName : String) : Option Artifact :=
  o.artifacts.find? (·.hintName = hintName)

structure Job where
  /-- The current directory of the host. -/
  current : String
  options : Options
  assemblyName : Option Label
  supportsNullableAttributes : Bool

namespace Generate

def artifactName (key : String) : String :=
  String.ofList (Path.baseName key.toList) ++ ".resx.g.cs"

/-- The class for a group's settings and entries, if there are entries and a name to load by. -/
def classFor (job : Job) (s : Settings) (entries : Option (List Entry)) :
    Except Failure (Option AccessorClass) := do
  match s.resourceName, entries with
  | some resourceName, some entries =>
    let style : Plumbing.Style :=
      ⟨s.className, resourceName, s.useInstanceMembers, job.supportsNullableAttributes⟩
    return some (← AccessorClass.ofEntries s.targetNamespace style entries)
  | _, _ => return none

def artifactText (g : ResourceGroup) (s : Settings) (c : Option AccessorClass) : String :=
  Header.render g.key g.paths s ++ (c.map AccessorClass.render).getD ""

def artifact (job : Job) (g : ResourceGroup) (s : Settings) (entries : Option (List Entry)) :
    Except Failure Artifact :=
  (classFor job s entries).map fun c => ⟨artifactName g.key, artifactText g s c⟩

def groupRecord (g : ResourceGroup) : LogRecord :=
  ⟨.debug, .generating,
    "Generating " ++ g.key ++ " from " ++ toString g.files.length ++ " file(s)"⟩

/-- Generate for one group: its artifact, and the diagnostics of its reporter. -/
def group (job : Job) (g : ResourceGroup) (cancelled : Bool) :
    Trace (Artifact × List Diagnostic) :=
  let (settings, reporter) := Settings.resolveWith job.current job.options job.assemblyName g
    (Reporter.empty.note (groupRecord g))
  match settings with
  | .error failure => ⟨.error failure, cancelled, [], reporter.log⟩
  | .ok settings =>
    let pass := Loading.loadWith g cancelled reporter
    let made := pass.result.bind (artifact job g settings)
    ⟨made.map (·, pass.reporter.diagnostics), pass.cancelled, pass.asked, pass.reporter.log⟩

def groups (job : Job) (cancelled : Bool) :
    List ResourceGroup → Trace (List (Artifact × List Diagnostic))
  | [] => .still cancelled (.ok [])
  | g :: rest =>
    (group job g cancelled).andThen fun made cancelled =>
      (groups job cancelled rest).map (made :: ·)

/-- The reporter of a run takes over the diagnostics of all groups. -/
def gatherer (made : List (Artifact × List Diagnostic)) : Reporter :=
  made.foldl (fun reporter m => reporter.extend m.2) Reporter.empty

def gather (made : List (Artifact × List Diagnostic)) : Output :=
  ⟨made.map (·.1), (gatherer made).diagnostics⟩

def runRecord (gs : List ResourceGroup) : LogRecord :=
  ⟨.info, .generating,
    "Generating accessors for " ++ toString gs.length ++ " resource group(s)"⟩

def run (job : Job) (files : List ResourceFile) (cancelled : Bool) : Trace Output :=
  Trace.logged [runRecord (ResourceGroup.ofAll files)]
    ((groups job cancelled (ResourceGroup.ofAll files)).andThen fun made cancelled =>
      ⟨.ok (gather made), cancelled, [], (gatherer made).log⟩)

end Generate

end TypedResources

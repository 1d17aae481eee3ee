import TypedResources.Report.Reporter
import TypedResources.Resource.Group
import TypedResources.Resource.Merge
import TypedResources.Resource.Resx
import TypedResources.Run.Trace

/-!
Loading the files of a group: all of them are read and merged, or none. The first file that cannot
be used ends the loading.
-/

namespace TypedResources.Loading

inductive Contribution
  | entries (entries : List Entry)
  | nothing
  | unusable
  | failed (failure : Failure)
  deriving DecidableEq, Repr

def contribution : Except ReadFault (Option String) → Contribution
  | .ok none => .nothing
  | .ok (some text) =>
    match Resx.parse text with
    | some entries => .entries entries
    | none => .unusable
  | .error fault => if fault.isContained then .unusable else .failed (.unreadable fault)

def giveUp (path : String) (reporter : Reporter) : Reporter :=
  (reporter.note ⟨.debug, .loading, "Couldn't parse " ++ path⟩).report (.unreadableFile path)

/-- The files whose hosts are asked where one is to be read. -/
def asked (f : ResourceFile) (cancelled : Bool) : List ResourceFile := if cancelled then [] else [f]

/-- What going through files comes to: their merged entries, unless a file is unusable, the token
and the reporter afterwards, and the files whose hosts were asked. -/
structure Pass where
  result : Except Failure (Option (List Entry))
  cancelled : Bool
  asked : List ResourceFile
  reporter : Reporter

/-- The same after other files were asked. -/
def Pass.after (earlier : List ResourceFile) (p : Pass) : Pass := { p with
  asked := earlier ++ p.asked }

/-- Go through files in the given order, on top of what is merged already. -/
def pass (merged : List Entry) (cancelled : Bool) (reporter : Reporter) :
    List ResourceFile → Pass
  | [] => ⟨.ok (some merged), cancelled, [], reporter⟩
  | f :: rest =>
    let later := f.cancelledAfter cancelled
    match contribution (f.read cancelled) with
    | .entries entries =>
      (pass (Merge.addAll merged entries) later reporter rest).after (asked f cancelled)
    | .nothing => (pass merged later reporter rest).after (asked f cancelled)
    | .unusable => ⟨.ok none, later, asked f cancelled, giveUp f.path reporter⟩
    | .failed failure => ⟨.error failure, later, asked f cancelled, reporter⟩

def loadWith (g : ResourceGroup) (cancelled : Bool) (reporter : Reporter) : Pass :=
  pass [] cancelled reporter (ResourceGroup.sortFiles g.files)

/-- The merged entries of a group, unless a file was unusable, and what was reported. -/
structure Loaded where
  entries : Option (List Entry)
  diagnostics : List Diagnostic
  deriving DecidableEq, Repr

def Pass.loaded (p : Pass) : Trace Loaded :=
  ⟨p.result.map (⟨·, p.reporter.diagnostics⟩), p.cancelled, p.asked, p.reporter.log⟩

def loadFrom (merged : List Entry) (cancelled : Bool) (files : List ResourceFile) : Trace Loaded :=
  (pass merged cancelled Reporter.empty files).loaded

def load (g : ResourceGroup) (cancelled : Bool) : Trace Loaded :=
  (loadWith g cancelled Reporter.empty).loaded

end TypedResources.Loading

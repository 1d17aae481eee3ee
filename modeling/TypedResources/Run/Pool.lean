import TypedResources.Run.Generate

/-!
Workers that share the groups of a run. The work on a group goes step by step and is visible to no
other worker; only the cancellation token is shared. A schedule says which group is worked on next
and when the host cancels, so that every way in which the steps can mix is a schedule.
-/

namespace TypedResources.Pool

/-- What is known of a group while its files are loaded. -/
structure Draft where
  settings : Settings
  reporter : Reporter
  merged : List Entry

inductive Stage
  | queued
  /-- The files that are still to be loaded. -/
  | loading (draft : Draft) (files : List ResourceFile)
  /-- The token let a file pass, and its host is asked next. -/
  | asking (draft : Draft) (file : ResourceFile) (rest : List ResourceFile)
  | finished (result : Except Failure (Artifact × List Diagnostic))

namespace Stage

variable (job : Job) (g : ResourceGroup)

/-- The result for what was loaded, with what the reporter was told. -/
def ofLoaded (settings : Settings) (entries : Option (List Entry)) (reporter : Reporter) : Stage :=
  .finished ((Generate.artifact job g settings entries).map (·, reporter.diagnostics))

def ofUnusable (draft : Draft) (file : ResourceFile) : Stage :=
  ofLoaded job g draft.settings none (Loading.giveUp file.path draft.reporter)

def afterAnswer (draft : Draft) (file : ResourceFile) (rest : List ResourceFile) : Stage :=
  match Loading.contribution file.content with
  | .entries entries => .loading { draft with merged := Merge.addAll draft.merged entries } rest
  | .nothing => .loading draft rest
  | .unusable => ofUnusable job g draft file
  | .failed failure => .finished (.error failure)

def next (cancelled : Bool) : Stage → Stage
  | .queued =>
    match Settings.resolveWith job.current job.options job.assemblyName g
      (Reporter.empty.note (Generate.groupRecord g)) with
    | (.ok settings, reporter) =>
      .loading ⟨settings, reporter, []⟩ (ResourceGroup.sortFiles g.files)
    | (.error failure, _) => .finished (.error failure)
  | .loading draft [] => ofLoaded job g draft.settings (some draft.merged) draft.reporter
  | .loading draft (file :: rest) =>
    if cancelled then ofUnusable job g draft file else .asking draft file rest
  | .asking draft file rest => afterAnswer job g draft file rest
  | .finished result => .finished result

/-- Whether the next step cancels the run: it does when the host that is asked does. -/
def cancels : Stage → Bool
  | .asking _ file _ => file.cancels
  | _ => false

end Stage

structure State where
  cancelled : Bool
  work : List (ResourceGroup × Stage)

/-- What can happen next: a step of the work on a group, or the host cancels. -/
inductive Event
  | step (index : Nat)
  | cancel

def State.after (job : Job) (s : State) : Event → State
  | .step index =>
    match s.work[index]? with
    | some (g, stage) =>
      ⟨s.cancelled || stage.cancels, s.work.set index (g, stage.next job g s.cancelled)⟩
    | none => s
  | .cancel => { s with cancelled := true }

theorem State.after_step (job : Job) {s : State} {index : Nat} {g : ResourceGroup} {stage : Stage}
    (h : s.work[index]? = some (g, stage)) :
    s.after job (.step index) =
      ⟨s.cancelled || stage.cancels, s.work.set index (g, stage.next job g s.cancelled)⟩ := by
  simp [State.after, h]

theorem State.after_step_of_none (job : Job) {s : State} {index : Nat}
    (h : s.work[index]? = none) : s.after job (.step index) = s := by
  simp only [State.after, h]

def start (files : List ResourceFile) (cancelled : Bool) : State :=
  ⟨cancelled, (ResourceGroup.ofAll files).map (·, .queued)⟩

/-- The results in the order of the groups, as soon as they are there. The first failure stands for
all of them. -/
def gathered :
    List (ResourceGroup × Stage) → Option (Except Failure (List (Artifact × List Diagnostic)))
  | [] => some (.ok [])
  | (_, .finished (.ok made)) :: rest => (gathered rest).map (·.map (made :: ·))
  | (_, .finished (.error failure)) :: _ => some (.error failure)
  | _ :: _ => none

def Ends (job : Job) (files : List ResourceFile) (cancelled : Bool)
    (result : Except Failure Output) : Prop :=
  ∃ schedule : List Event, ∃ made,
    gathered (schedule.foldl (State.after job) (start files cancelled)).work = some made ∧
      result = made.map Generate.gather

end TypedResources.Pool

namespace TypedResources.Generate

/-- A run with some number of workers can end with the result. One worker, or one group, makes it a
run of one group after the other. -/
def Ends (job : Job) (files : List ResourceFile) (cancelled : Bool) (workers : Int)
    (result : Except Failure Output) : Prop :=
  if 1 < workers ∧ 1 < (ResourceGroup.ofAll files).length then Pool.Ends job files cancelled result
  else (run job files cancelled).result = result

end TypedResources.Generate

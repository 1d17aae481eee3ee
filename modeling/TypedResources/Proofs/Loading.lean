import Mathlib.Data.List.Basic
import TypedResources.Proofs.Grouping
import TypedResources.Proofs.Markup.Evaluation
import TypedResources.Run.Loading

/-! Loading the files of a group: when it gives entries, and what it leaves of the token. -/
namespace TypedResources

/-- A reporter that is told what another one was told from the beginning. -/
def Reporter.followedBy (r s : Reporter) : Reporter :=
  ⟨r.diagnostics ++ s.diagnostics,r.log ++ s.log⟩

/-- The same after other files were asked. -/
def Trace.askedAfter {α : Type} (earlier : List ResourceFile) (t : Trace α) : Trace α := { t with
  asked := earlier ++ t.asked }

namespace Loading

/-- What loading comes to at a file that cannot be used. -/
def givenUp (path : String) : Loaded := ⟨none,[.unreadableFile path]⟩

/-- A reporter is told the same, whatever it was told before. -/
theorem pass_eq (merged : List Entry) (cancelled : Bool) (reporter : Reporter)
    (files : List ResourceFile) :
    pass merged cancelled reporter files = { pass merged cancelled Reporter.empty files with
      reporter := reporter.followedBy (pass merged cancelled Reporter.empty files).reporter } := by
  induction files generalizing merged cancelled with
  | nil => simp [pass,Reporter.followedBy,Reporter.empty]
  | cons f rest ih =>
    simp only [pass]
    cases contribution (f.read cancelled) with
    | entries entries => simp only [ih,Pass.after]
    | nothing => simp only [ih,Pass.after]
    | unusable => simp [Reporter.followedBy,giveUp,Reporter.report,Reporter.note,Reporter.empty]
    | failed failure => simp [Reporter.followedBy,Reporter.empty]

theorem loadFrom_nil (merged : List Entry) (cancelled : Bool) :
    loadFrom merged cancelled [] = .still cancelled (.ok ⟨some merged,[]⟩) := rfl

theorem loadFrom_cons (merged : List Entry) (cancelled : Bool) (f : ResourceFile)
    (rest : List ResourceFile) :
    loadFrom merged cancelled (f :: rest) =
      match contribution (f.read cancelled) with
      | .entries entries =>
        (loadFrom (Merge.addAll merged entries) (cancelled || f.cancels) rest).askedAfter
          (asked f cancelled)
      | .nothing =>
        (loadFrom merged (cancelled || f.cancels) rest).askedAfter (asked f cancelled)
      | .unusable => ⟨.ok (givenUp f.path),cancelled || f.cancels,asked f cancelled,
          (giveUp f.path Reporter.empty).log⟩
      | .failed failure => ⟨.error failure,cancelled || f.cancels,asked f cancelled,[]⟩ := by
  simp only [loadFrom,pass]
  cases contribution (f.read cancelled) <;> rfl

theorem loadFrom_cons_result (merged : List Entry) (cancelled : Bool) (f : ResourceFile)
    (rest : List ResourceFile) :
    (loadFrom merged cancelled (f :: rest)).result =
      match contribution (f.read cancelled) with
      | .entries entries =>
        (loadFrom (Merge.addAll merged entries) (cancelled || f.cancels) rest).result
      | .nothing => (loadFrom merged (cancelled || f.cancels) rest).result
      | .unusable => .ok (givenUp f.path)
      | .failed failure => .error failure := by
  rw [loadFrom_cons]
  cases contribution (f.read cancelled) <;> rfl

theorem loadFrom_cons_cancelled (merged : List Entry) (cancelled : Bool) (f : ResourceFile)
    (rest : List ResourceFile) :
    (loadFrom merged cancelled (f :: rest)).cancelled =
      match contribution (f.read cancelled) with
      | .entries entries =>
        (loadFrom (Merge.addAll merged entries) (cancelled || f.cancels) rest).cancelled
      | .nothing => (loadFrom merged (cancelled || f.cancels) rest).cancelled
      | .unusable => cancelled || f.cancels
      | .failed _ => cancelled || f.cancels := by
  rw [loadFrom_cons]
  cases contribution (f.read cancelled) <;> rfl

theorem loadFrom_cons_log (merged : List Entry) (cancelled : Bool) (f : ResourceFile)
    (rest : List ResourceFile) :
    (loadFrom merged cancelled (f :: rest)).log =
      match contribution (f.read cancelled) with
      | .entries entries =>
        (loadFrom (Merge.addAll merged entries) (cancelled || f.cancels) rest).log
      | .nothing => (loadFrom merged (cancelled || f.cancels) rest).log
      | .unusable => (giveUp f.path Reporter.empty).log
      | .failed _ => [] := by
  rw [loadFrom_cons]
  cases contribution (f.read cancelled) <;> rfl

/-- What a file contributes to the merge once it has been read: nothing if its host has no text. -/
def added : Contribution → Option (List Entry)
  | .entries entries => some entries
  | .nothing => some []
  | .unusable => none
  | .failed _ => none

def declarations (f : ResourceFile) : List Entry := (added (contribution f.content)).getD []

/-- No file is asked after the run is cancelled, and every text there is can be read and parsed. -/
def ReadsAll : Bool → List ResourceFile → Prop
  | _, [] => True
  | cancelled, f :: rest =>
    cancelled = false ∧ (added (contribution f.content)).isSome ∧ ReadsAll f.cancels rest

theorem contribution_of_cancelled (f : ResourceFile) : contribution (f.read true) = .unusable := rfl

/-- Loading gives entries exactly when it reads all files, and then it merges what they declare. -/
theorem loadFrom_eq_some_iff (merged : List Entry) (cancelled : Bool) (files : List ResourceFile)
    (entries : List Entry) (diagnostics : List Diagnostic) :
    (loadFrom merged cancelled files).result = .ok ⟨some entries,diagnostics⟩ ↔
      ReadsAll cancelled files ∧ entries = Merge.addAll merged (files.flatMap declarations) ∧
        diagnostics = [] := by
  induction files generalizing merged cancelled with
  | nil =>
    rw [loadFrom_nil]
    simp only [Trace.still_result,Except.ok.injEq,Loaded.mk.injEq,Option.some.injEq,
      ReadsAll,List.flatMap_nil,Merge.addAll,List.foldl_nil,true_and,eq_comm]
  | cons f rest ih =>
    rw [loadFrom_cons_result]
    cases cancelled with
    | true => simp [contribution_of_cancelled,givenUp,ReadsAll]
    | false =>
      have hread : f.read false = f.content := rfl
      rw [hread,Bool.false_or,List.flatMap_cons,Merge.addAll_append]
      cases hc : contribution f.content with
      | entries found => simp [ih,ReadsAll,declarations,added,hc]
      | nothing => simp [ih,ReadsAll,declarations,added,hc,Merge.addAll]
      | unusable => simp [givenUp,ReadsAll,added,hc]
      | failed failure => simp [ReadsAll,added,hc]

def allDeclarations (g : ResourceGroup) : List Entry :=
  (ResourceGroup.sortFiles g.files).flatMap declarations

theorem load_eq_some_iff (g : ResourceGroup) (cancelled : Bool) (entries : List Entry)
    (diagnostics : List Diagnostic) :
    (load g cancelled).result = .ok ⟨some entries,diagnostics⟩ ↔
      ReadsAll cancelled (ResourceGroup.sortFiles g.files) ∧
        entries = Merge.entries (allDeclarations g) ∧ diagnostics = [] :=
  loadFrom_eq_some_iff [] cancelled _ entries diagnostics

/-- Loading ends without entries exactly when it does not read all files. -/
theorem entries_eq_none_iff {g : ResourceGroup} {cancelled : Bool} {loaded : Loaded}
    (h : (load g cancelled).result = .ok loaded) :
    loaded.entries = none ↔ ¬ ReadsAll cancelled (ResourceGroup.sortFiles g.files) := by
  obtain ⟨entries,diagnostics⟩ := loaded
  constructor
  · rintro rfl hreads
    have hsome := (load_eq_some_iff g cancelled _ _).mpr ⟨hreads,rfl,rfl⟩
    rw [h] at hsome
    simp at hsome
  · intro hnot
    cases entries with
    | none => rfl
    | some found => exact absurd ((load_eq_some_iff g cancelled _ _).mp h).1 hnot

theorem loadFrom_outcome {merged : List Entry} {cancelled : Bool} {files : List ResourceFile}
    {loaded : Loaded} (h : (loadFrom merged cancelled files).result = .ok loaded) :
    (∃ entries, loaded = ⟨some entries,[]⟩) ∨ ∃ f ∈ files, loaded = givenUp f.path := by
  induction files generalizing merged cancelled with
  | nil => exact Or.inl ⟨merged,(Except.ok.inj h).symm⟩
  | cons f rest ih =>
    have hrest : ∀ {merged' : List Entry} {cancelled' : Bool},
        (loadFrom merged' cancelled' rest).result = .ok loaded →
        (∃ entries, loaded = ⟨some entries,[]⟩) ∨ ∃ x ∈ f :: rest, loaded = givenUp x.path := by
      intro _ _ h'
      rcases ih h' with hall | ⟨x,hx,hgiven⟩
      · exact Or.inl hall
      · exact Or.inr ⟨x,by simp [hx],hgiven⟩
    rw [loadFrom_cons_result] at h
    cases hc : contribution (f.read cancelled) with
    | entries found => rw [hc] at h; exact hrest h
    | nothing => rw [hc] at h; exact hrest h
    | unusable => rw [hc] at h; exact Or.inr ⟨f,by simp,(Except.ok.inj h).symm⟩
    | failed failure => rw [hc] at h; cases h

/-- Loading ends with entries and nothing to report, or without entries and one file reported. -/
theorem load_outcome {g : ResourceGroup} {cancelled : Bool} {loaded : Loaded}
    (h : (load g cancelled).result = .ok loaded) :
    (∃ entries, loaded = ⟨some entries,[]⟩) ∨ ∃ f ∈ g.files, loaded = givenUp f.path := by
  rcases loadFrom_outcome h with hall | ⟨f,hf,hgiven⟩
  · exact Or.inl hall
  · exact Or.inr ⟨f,(ResourceGroup.sortFiles_perm g.files).mem_iff.mp hf,hgiven⟩

end Loading

def oneEntryFile (path : String) (value : List Char) : ResourceFile :=
  .ofText path (some (String.ofList (Markup.oneEntry value)))

namespace Loading

theorem contribution_oneEntryFile {value : List Char} (h : Markup.IsPlain value) (path : String) :
    contribution (oneEntryFile path value).content =
      .entries [⟨some "x",some (String.ofList value),none,none⟩] := by
  simp [oneEntryFile,ResourceFile.ofText,contribution,Markup.parse_oneEntry h]

end Loading

/-- The hosts of the files leave the token alone. -/
def LeaveToken (files : List ResourceFile) : Prop := ∀ f ∈ files, f.cancels = false

theorem LeaveToken.of_mem_ofAll {files : List ResourceFile} (h : LeaveToken files)
    {g : ResourceGroup} (hg : g ∈ ResourceGroup.ofAll files) : LeaveToken g.files :=
  fun f hf => h f (ResourceGroup.mem_of_mem_files hg hf)

namespace Loading

theorem loadFrom_cancelled {files : List ResourceFile} (h : LeaveToken files)
    (merged : List Entry) (cancelled : Bool) :
    (loadFrom merged cancelled files).cancelled = cancelled := by
  induction files generalizing merged with
  | nil => rfl
  | cons f rest ih =>
    have hf : f.cancels = false := h f (by simp)
    have hrest : LeaveToken rest := fun x hx => h x (by simp [hx])
    rw [loadFrom_cons_cancelled,hf,Bool.or_false]
    cases contribution (f.read cancelled) with
    | entries entries => exact ih hrest _
    | nothing => exact ih hrest _
    | unusable => rfl
    | failed failure => rfl

theorem load_cancelled {g : ResourceGroup} (h : LeaveToken g.files) (cancelled : Bool) :
    (load g cancelled).cancelled = cancelled :=
  loadFrom_cancelled (fun f hf => h f ((ResourceGroup.sortFiles_perm g.files).mem_iff.mp hf)) _ _

end Loading
end TypedResources

import TypedResources.General.List
import TypedResources.Proofs.Survival

/-! Groups do not see each other: a run gives every group what a run over its members alone gives,
whatever other files there are. -/
namespace TypedResources
namespace Generate

/-- The output is put together from the outputs of runs over the members of one group each. -/
structure Assembled (job : Job) (cancelled : Bool) (files : List ResourceFile) (out : Output)
    (parts : List Output) : Prop where
  alone : List.Forall₂ (fun g part =>
      (run job (g.membersAmong files) cancelled).result = .ok part ∧
        ∃ a, part.artifacts = [a] ∧ a.hintName = artifactName g.key)
    (ResourceGroup.ofAll files) parts
  artifacts : out.artifacts = parts.flatMap (·.artifacts)
  diagnostics : out.diagnostics = parts.flatMap (·.diagnostics)

def single (m : Artifact × List Diagnostic) : Output := ⟨[m.1],m.2⟩

theorem run_membersAmong_result {files : List ResourceFile} {g : ResourceGroup}
    (hg : g ∈ ResourceGroup.ofAll files) (job : Job) (cancelled : Bool) :
    (run job (g.membersAmong files) cancelled).result =
      (group job g cancelled).result.map single := by
  rw [run_result,ResourceGroup.ofAll_membersAmong hg,groups]
  cases hm : (group job g cancelled).result with
  | error e => rw [(Trace.andThen_of_error hm _).1]; rfl
  | ok m => rw [(Trace.andThen_of_ok hm _).1]; rfl

theorem artifacts_single (made : List (Artifact × List Diagnostic)) :
    (made.map single).flatMap (·.artifacts) = made.map (·.1) := by
  induction made with
  | nil => rfl
  | cons m rest ih => simp [single,← ih]

theorem diagnostics_single (made : List (Artifact × List Diagnostic)) :
    (made.map single).flatMap (·.diagnostics) = made.flatMap (·.2) := by
  induction made with
  | nil => rfl
  | cons m rest ih => simp [single,← ih]

theorem assembled_of_run {job : Job} {files : List ResourceFile} {cancelled : Bool} {out : Output}
    (hfiles : LeaveToken files) (hrun : (run job files cancelled).result = .ok out) :
    ∃ made, List.Forall₂ (fun g m => (group job g cancelled).result = .ok m)
        (ResourceGroup.ofAll files) made ∧
      Assembled job cancelled files out (made.map single) := by
  obtain ⟨made,hmade,rfl⟩ := (run_result_eq_ok hfiles job cancelled out).mp hrun
  refine ⟨made,hmade,?_,(artifacts_single made).symm,(diagnostics_single made).symm⟩
  rw [List.forall₂_map_right_iff,List.forall₂_iff_zip]
  obtain ⟨hlen,hzip⟩ := List.forall₂_iff_zip.mp hmade
  refine ⟨hlen,?_⟩
  intro g m hgm
  have hg := hzip hgm
  refine ⟨?_,m.1,rfl,group_hintName hg⟩
  rw [run_membersAmong_result (List.of_mem_zip hgm).1,hg]
  rfl

/-- Every group's part of an output is the whole output of a run over the group's members, and the
parts stand in the order of the keys. A run over any other files with the same members of a group
has the same part for it. -/
theorem run_isolates_groups (job : Job) (files : List ResourceFile) (cancelled : Bool)
    (hfiles : LeaveToken files) (out : Output)
    (hrun : (run job files cancelled).result = .ok out) :
    (ResourceGroup.ofAll files).Pairwise (fun g h => g.key < h.key) ∧
    (∀ g ∈ ResourceGroup.ofAll files, (g.membersAmong files).Perm g.files) ∧
    ∃ parts, Assembled job cancelled files out parts ∧
      ∀ others out', LeaveToken others → (run job others cancelled).result = .ok out' →
        ∃ parts', Assembled job cancelled others out' parts' ∧
          ∀ g part, (g,part) ∈ (ResourceGroup.ofAll files).zip parts →
            g.membersAmong others = g.membersAmong files →
              (g,part) ∈ (ResourceGroup.ofAll others).zip parts' := by
  refine ⟨ResourceGroup.ofAll_keys_lt files,fun _ => ResourceGroup.membersAmong_perm,?_⟩
  obtain ⟨made,hmade,hout⟩ := assembled_of_run hfiles hrun
  refine ⟨made.map single,hout,?_⟩
  intro others out' hothers hrun'
  obtain ⟨made',hmade',hout'⟩ := assembled_of_run hothers hrun'
  refine ⟨made'.map single,hout',?_⟩
  intro g part hpart hsame
  have hg : g ∈ ResourceGroup.ofAll files := (List.of_mem_zip hpart).1
  have hg' : g ∈ ResourceGroup.ofAll others := ResourceGroup.mem_ofAll_of_membersAmong_eq hg hsame
  obtain ⟨part',hpart'⟩ := List.exists_mem_zip hout'.alone.length_eq hg'
  have hhere := ((List.forall₂_iff_zip.mp hout.alone).2 hpart).1
  have hthere := ((List.forall₂_iff_zip.mp hout'.alone).2 hpart').1
  rw [hsame,hhere] at hthere
  rwa [← Except.ok.inj hthere] at hpart'

/-- Two groups, one of which has a file that is not found. -/
def threeFiles : List ResourceFile :=
  [oneEntryFile "b.resx" "Open".toList,oneEntryFile "A.fr.resx" "Ouvrir".toList,
    ⟨"a.resx",false,.error .notFound⟩]

theorem run_isolates_threeFiles :
    LeaveToken threeFiles ∧ ∃ out, (run namingJob threeFiles false).result = .ok out ∧
      ∃ parts, Assembled namingJob false threeFiles out parts := by
  have hleave : LeaveToken threeFiles := by
    simp [LeaveToken,threeFiles,oneEntryFile,ResourceFile.ofText]
  have hcontained : FailContained threeFiles := by
    simp [FailContained,threeFiles,oneEntryFile,ResourceFile.ofText,ReadFault.isContained]
  have hshort : ∀ f ∈ threeFiles, ∀ e ∈ Loading.declarations f, ¬ e.IsOverlong := by
    intro f hf
    simp only [threeFiles,List.mem_cons,List.not_mem_nil,or_false] at hf
    rcases hf with rfl | rfl | rfl
    · exact not_isOverlong_oneEntryFile (by simp [Markup.IsPlain,Markup.isChar])
        (by simp [Number.maxDecimalDigits]) _
    · exact not_isOverlong_oneEntryFile (by simp [Markup.IsPlain,Markup.isChar])
        (by simp [Number.maxDecimalDigits]) _
    · intro e he
      simp [Loading.declarations,Loading.contribution,ReadFault.isContained,Loading.added] at he
  obtain ⟨out,hout,-⟩ := run_isOk (by simp [namingJob]) hcontained
    (not_someEndsRun hshort namingJob false)
  obtain ⟨-,-,parts,hparts,-⟩ := run_isolates_groups namingJob threeFiles false hleave out hout
  exact ⟨hleave,out,hout,parts,hparts⟩

end Generate
end TypedResources

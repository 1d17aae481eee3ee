import TypedResources.Proofs.Generation
import TypedResources.Proofs.Merging
import TypedResources.Proofs.Rendering
import TypedResources.Proofs.Resolution

/-! What can end a run. Files that cannot be used, contradicting options and missing names do not;
an overlong placeholder index in a text entry does, and nothing else. -/
namespace TypedResources

theorem Entry.Clean.fillComment {x : Entry} (hx : x.Clean) {e : Entry} (he : e.Clean) :
    (Merge.fillComment x e.comment).Clean := by
  refine ⟨hx.name,hx.value,?_⟩
  intro s hs
  cases hc : x.comment with
  | none =>
    refine he.comment s ?_
    simpa [Merge.fillComment,Entry.withComment,hc] using hs
  | some c =>
    refine hx.comment s ?_
    simpa [Merge.fillComment,Entry.withComment,hc] using hs

namespace Merge

theorem clean_add {merged : List Entry} (hm : ∀ x ∈ merged, x.Clean) {e : Entry} (he : e.Clean) :
    ∀ x ∈ add merged e, x.Clean := by
  intro x hx
  unfold add at hx
  split at hx
  · obtain ⟨y,hy,rfl⟩ := List.mem_map.mp hx
    split
    · exact (hm y hy).fillComment he
    · exact hm y hy
  · rcases List.mem_append.mp hx with hx | hx
    · exact hm x hx
    · rw [List.mem_singleton.mp hx]
      exact he

theorem clean_addAll {merged entries : List Entry} (hm : ∀ x ∈ merged, x.Clean)
    (he : ∀ x ∈ entries, x.Clean) : ∀ x ∈ addAll merged entries, x.Clean := by
  induction entries generalizing merged with
  | nil => exact hm
  | cons e rest ih => exact ih (clean_add hm (he e (by simp))) fun x hx => he x (by simp [hx])

end Merge

/-- The hosts of the files fail only in ways that a run survives. -/
def FailContained (files : List ResourceFile) : Prop :=
  ∀ f ∈ files, ∀ fault, f.content = .error fault → fault.isContained = true

theorem FailContained.of_mem_ofAll {files : List ResourceFile} (h : FailContained files)
    {g : ResourceGroup} (hg : g ∈ ResourceGroup.ofAll files) : FailContained g.files :=
  fun f hf => h f (ResourceGroup.mem_of_mem_files hg hf)

namespace Loading

theorem clean_declarations (f : ResourceFile) : ∀ e ∈ declarations f, e.Clean := by
  unfold declarations contribution
  cases hcontent : f.content with
  | error fault => cases fault <;> simp [ReadFault.isContained,added]
  | ok text =>
    cases text with
    | none => simp [added]
    | some text =>
      cases hparse : Resx.parse text with
      | none => simp [hparse,added]
      | some entries => simpa [hparse,added] using clean_parse hparse

theorem clean_merged (g : ResourceGroup) : ∀ e ∈ Merge.entries (allDeclarations g), e.Clean := by
  refine Merge.clean_addAll (by simp) ?_
  intro e he
  obtain ⟨f,-,hf⟩ := List.mem_flatMap.mp he
  exact clean_declarations f e hf

theorem read_contained {f : ResourceFile}
    (h : ∀ fault, f.content = .error fault → fault.isContained = true) {cancelled : Bool}
    {fault : ReadFault} (hr : f.read cancelled = .error fault) : fault.isContained = true := by
  unfold ResourceFile.read at hr
  split at hr
  · cases hr
    rfl
  · exact h fault hr

theorem contribution_ne_failed {f : ResourceFile}
    (h : ∀ fault, f.content = .error fault → fault.isContained = true) (cancelled : Bool)
    (failure : Failure) : contribution (f.read cancelled) ≠ .failed failure := by
  intro hc
  unfold contribution at hc
  split at hc
  · simp at hc
  · split at hc <;> simp at hc
  · rename_i fault hr
    simp [read_contained h hr] at hc

theorem loadFrom_isOk {files : List ResourceFile} (h : FailContained files) (merged : List Entry)
    (cancelled : Bool) : ∃ loaded, (loadFrom merged cancelled files).result = .ok loaded := by
  induction files generalizing merged cancelled with
  | nil => exact ⟨_,rfl⟩
  | cons f rest ih =>
    have hrest : FailContained rest := fun x hx => h x (by simp [hx])
    rw [loadFrom_cons_result]
    cases hc : contribution (f.read cancelled) with
    | entries found => exact ih hrest _ _
    | nothing => exact ih hrest _ _
    | unusable => exact ⟨_,rfl⟩
    | failed failure => exact absurd hc (contribution_ne_failed (h f (by simp)) cancelled failure)

/-- Loading a group never fails on faults that a run survives. -/
theorem load_isOk {g : ResourceGroup} (h : FailContained g.files) (cancelled : Bool) :
    ∃ loaded, (load g cancelled).result = .ok loaded :=
  loadFrom_isOk (fun f hf => h f ((ResourceGroup.sortFiles_perm g.files).mem_iff.mp hf)) []
    cancelled

end Loading

namespace Generate

/-- The group has a name to load by, all its files are read, and one of the entries they merge to
holds an overlong placeholder index. -/
def EndsRun (job : Job) (g : ResourceGroup) (cancelled : Bool) : Prop :=
  (∃ settings early,
    Settings.resolve job.current job.options job.assemblyName g = .ok (settings,early) ∧
      settings.resourceName.isSome) ∧
  Loading.ReadsAll cancelled (ResourceGroup.sortFiles g.files) ∧
  ∃ e ∈ Merge.entries (Loading.allDeclarations g), e.IsOverlong

/-- The token once the files of some groups have been loaded one group after the other. -/
def tokenAfter (cancelled : Bool) (gs : List ResourceGroup) : Bool :=
  gs.foldl (fun c g => (Loading.load g c).cancelled) cancelled

/-- Some group ends the run under the token that reaches it. -/
def SomeEndsRun (job : Job) (cancelled : Bool) (gs : List ResourceGroup) : Prop :=
  ∃ before g after, gs = before ++ g :: after ∧ EndsRun job g (tokenAfter cancelled before)

theorem artifact_eq_error (job : Job) (g : ResourceGroup) (settings : Settings)
    {entries : List Entry} (h : ∀ e ∈ entries, e.Clean) (failure : Failure) :
    artifact job g settings (some entries) = .error failure ↔
      failure = .longIndex ∧ settings.resourceName.isSome ∧ ∃ e ∈ entries, e.IsOverlong := by
  unfold artifact classFor
  cases hname : settings.resourceName with
  | none => simp [pure,Except.pure,Except.map]
  | some resourceName =>
    simp only [Option.isSome_some,true_and]
    rw [← AccessorClass.ofEntries_eq_error h settings.targetNamespace
      ⟨settings.className,resourceName,settings.useInstanceMembers,job.supportsNullableAttributes⟩]
    cases AccessorClass.ofEntries settings.targetNamespace _ entries <;>
      simp [bind,Except.bind,pure,Except.pure,Except.map]

theorem artifact_none (job : Job) (g : ResourceGroup) (settings : Settings) :
    artifact job g settings none = .ok ⟨artifactName g.key,artifactText g settings none⟩ := by
  unfold artifact classFor
  cases settings.resourceName <;> rfl

theorem someEndsRun_cons (job : Job) (cancelled : Bool) (g : ResourceGroup)
    (rest : List ResourceGroup) :
    SomeEndsRun job cancelled (g :: rest) ↔ EndsRun job g cancelled ∨
      SomeEndsRun job (Loading.load g cancelled).cancelled rest := by
  constructor
  · rintro ⟨before,h,after,hsplit,hends⟩
    cases before with
    | nil =>
      obtain ⟨rfl,rfl⟩ := List.cons.inj hsplit
      exact Or.inl hends
    | cons b before =>
      obtain ⟨rfl,rfl⟩ := List.cons.inj hsplit
      exact Or.inr ⟨before,h,after,rfl,hends⟩
  · rintro (hends | ⟨before,h,after,rfl,hends⟩)
    · exact ⟨[],g,rest,rfl,hends⟩
    · exact ⟨g :: before,h,after,rfl,hends⟩

theorem tokenAfter_of_leave {gs : List ResourceGroup} (h : ∀ g ∈ gs, LeaveToken g.files)
    (cancelled : Bool) : tokenAfter cancelled gs = cancelled := by
  induction gs with
  | nil => rfl
  | cons g rest ih =>
    show tokenAfter (Loading.load g cancelled).cancelled rest = cancelled
    rw [Loading.load_cancelled (h g (by simp))]
    exact ih fun x hx => h x (by simp [hx])

/-- As long as the hosts leave the token alone, every group meets the token of the whole run. -/
theorem someEndsRun_of_mem {files : List ResourceFile} (hfiles : LeaveToken files) {job : Job}
    {cancelled : Bool} {g : ResourceGroup} (hg : g ∈ ResourceGroup.ofAll files)
    (hends : EndsRun job g cancelled) :
    SomeEndsRun job cancelled (ResourceGroup.ofAll files) := by
  obtain ⟨before,after,hsplit⟩ := List.append_of_mem hg
  refine ⟨before,g,after,hsplit,?_⟩
  rwa [tokenAfter_of_leave]
  intro x hx
  exact hfiles.of_mem_ofAll (by simp [hsplit,hx])

theorem not_endsRun {g : ResourceGroup}
    (h : ∀ f ∈ g.files, ∀ e ∈ Loading.declarations f, ¬ e.IsOverlong) (job : Job)
    (cancelled : Bool) : ¬ EndsRun job g cancelled := by
  rintro ⟨-,-,e,he,hlong⟩
  obtain ⟨d,hd,hsame⟩ := Merge.find?_of_mem he
  obtain ⟨f,hf,hdf⟩ := List.mem_flatMap.mp (List.mem_of_find?_eq_some hd)
  have hmem := (ResourceGroup.sortFiles_perm g.files).mem_iff.mp hf
  exact h f hmem d hdf ((Entry.isOverlong_congr hsame).mp hlong)

/-- A run ends early only for an overlong index that a file declares. -/
theorem not_someEndsRun {files : List ResourceFile}
    (h : ∀ f ∈ files, ∀ e ∈ Loading.declarations f, ¬ e.IsOverlong) (job : Job)
    (cancelled : Bool) : ¬ SomeEndsRun job cancelled (ResourceGroup.ofAll files) := by
  rintro ⟨before,g,after,hsplit,hends⟩
  have hg : g ∈ ResourceGroup.ofAll files := by simp [hsplit]
  exact not_endsRun (fun f hf => h f (ResourceGroup.mem_of_mem_files hg hf)) job _ hends

theorem not_isOverlong_oneEntryFile {value : List Char} (hplain : Markup.IsPlain value)
    (hshort : value.length ≤ Number.maxDecimalDigits) (path : String) :
    ∀ e ∈ Loading.declarations (oneEntryFile path value), ¬ e.IsOverlong := by
  intro e he
  rw [Loading.declarations,Loading.contribution_oneEntryFile hplain] at he
  obtain rfl := List.mem_singleton.mp he
  refine Entry.not_isOverlong_of_short ?_
  intro v hv
  obtain rfl := Option.some.inj hv
  rwa [String.toList_ofList]

section Run

variable {job : Job} (hassembly : ∀ label ∈ job.assemblyName, ∃ t, label = .text t)
include hassembly

theorem group_survives {g : ResourceGroup} (hg : g.files ≠ []) (hcontained : FailContained g.files)
    (cancelled : Bool) :
    (group job g cancelled).cancelled = (Loading.load g cancelled).cancelled ∧
    (EndsRun job g cancelled → (group job g cancelled).result = .error .longIndex) ∧
    (¬ EndsRun job g cancelled → ∃ made, (group job g cancelled).result = .ok made) := by
  obtain ⟨⟨settings,early⟩,hs⟩ := Settings.resolve_isOk hassembly hg job.current job.options
  obtain ⟨loaded,hl⟩ := Loading.load_isOk hcontained cancelled
  obtain ⟨hresult,htoken,-⟩ := group_of_settings hs cancelled
  refine ⟨htoken,?_⟩
  rw [hresult,hl,Except.bind]
  rcases Loading.load_outcome hl with ⟨entries,rfl⟩ | ⟨f,-,rfl⟩
  · obtain ⟨hreads,rfl,-⟩ := (Loading.load_eq_some_iff g cancelled _ _).mp hl
    have herror := artifact_eq_error job g settings (Loading.clean_merged g)
    refine ⟨?_,?_⟩
    · rintro ⟨⟨settings',early',hs',hname⟩,-,hlong⟩
      obtain ⟨rfl,rfl⟩ := Prod.mk.inj (Except.ok.inj (hs.symm.trans hs'))
      rw [(herror .longIndex).mpr ⟨rfl,hname,hlong⟩]
      rfl
    · intro hends
      cases ha : artifact job g settings (some (Merge.entries (Loading.allDeclarations g))) with
      | ok a => exact ⟨_,rfl⟩
      | error failure =>
        obtain ⟨-,hname,hlong⟩ := (herror failure).mp ha
        exact absurd ⟨⟨settings,early,hs,hname⟩,hreads,hlong⟩ hends
  · refine ⟨?_,fun _ => ⟨_,by rw [Loading.givenUp,artifact_none]; rfl⟩⟩
    rintro ⟨-,hreads,-⟩
    exact absurd hreads ((Loading.entries_eq_none_iff hl).mp rfl)

theorem groups_survive {gs : List ResourceGroup} (hgs : ∀ g ∈ gs, g.files ≠ [])
    (hcontained : ∀ g ∈ gs, FailContained g.files) (cancelled : Bool) :
    (SomeEndsRun job cancelled gs → (groups job cancelled gs).result = .error .longIndex) ∧
    (¬ SomeEndsRun job cancelled gs → ∃ made, (groups job cancelled gs).result = .ok made ∧
      made.map (·.1.hintName) = gs.map fun g => artifactName g.key) := by
  induction gs generalizing cancelled with
  | nil =>
    refine ⟨?_,fun _ => ⟨[],rfl,rfl⟩⟩
    rintro ⟨before,g,after,hsplit,-⟩
    simp at hsplit
  | cons g rest ih =>
    obtain ⟨htoken,hfail,hpass⟩ :=
      group_survives hassembly (hgs g (by simp)) (hcontained g (by simp)) cancelled
    have hrest := ih (fun x hx => hgs x (by simp [hx])) (fun x hx => hcontained x (by simp [hx]))
      (group job g cancelled).cancelled
    rw [groups]
    by_cases hg : EndsRun job g cancelled
    · rw [(Trace.andThen_of_error (hfail hg) _).1]
      refine ⟨fun _ => rfl,fun hnone => ?_⟩
      exact absurd ⟨[],g,rest,rfl,hg⟩ hnone
    · obtain ⟨made,hmade⟩ := hpass hg
      rw [(Trace.andThen_of_ok hmade _).1,Trace.map_result,someEndsRun_cons,← htoken]
      refine ⟨?_,?_⟩
      · rintro (hhere | hthere)
        · exact absurd hhere hg
        · rw [hrest.1 hthere]
          rfl
      · intro hnone
        obtain ⟨others,hothers,hnames⟩ := hrest.2 fun hthere => hnone (Or.inr hthere)
        refine ⟨made :: others,by rw [hothers]; rfl,?_⟩
        rw [List.map_cons,List.map_cons,hnames,group_hintName hmade]

theorem run_fails {files : List ResourceFile} (hfiles : FailContained files) {cancelled : Bool}
    (hends : SomeEndsRun job cancelled (ResourceGroup.ofAll files)) :
    (run job files cancelled).result = .error .longIndex := by
  have hgroups := groups_survive hassembly (fun _ => ResourceGroup.files_ne_nil)
    (fun _ => hfiles.of_mem_ofAll) cancelled
  rw [run_result,hgroups.1 hends]
  rfl

theorem run_isOk {files : List ResourceFile} (hfiles : FailContained files) {cancelled : Bool}
    (hends : ¬ SomeEndsRun job cancelled (ResourceGroup.ofAll files)) :
    ∃ out, (run job files cancelled).result = .ok out ∧
      out.artifacts.map (·.hintName) =
        (ResourceGroup.ofAll files).map fun g => artifactName g.key := by
  have hgroups := groups_survive hassembly (fun _ => ResourceGroup.files_ne_nil)
    (fun _ => hfiles.of_mem_ofAll) cancelled
  obtain ⟨made,hmade,hnames⟩ := hgroups.2 hends
  refine ⟨gather made,by rw [run_result,hmade]; rfl,?_⟩
  rw [gather_eq,List.map_map]
  exact hnames

/-- Files without texts never end a run. -/
theorem exists_run_of_textless {files : List ResourceFile}
    (hfiles : ∀ f ∈ files, f.content = .ok none) (cancelled : Bool) :
    ∃ out, (run job files cancelled).result = .ok out := by
  have hcontained : FailContained files := by
    intro f hf fault hfault
    simp [hfiles f hf] at hfault
  have hshort : ∀ f ∈ files, ∀ e ∈ Loading.declarations f, ¬ e.IsOverlong := by
    intro f hf
    simp [Loading.declarations,Loading.contribution,hfiles f hf,Loading.added]
  obtain ⟨out,hout,-⟩ := run_isOk hassembly hcontained (not_someEndsRun hshort job cancelled)
  exact ⟨out,hout⟩

end Run

/-- A run gives one artifact per group, in their order, unless a group ends it, and then it fails
for an overlong placeholder index. -/
theorem run_survives_unless_overlong (job : Job)
    (hassembly : ∀ label ∈ job.assemblyName, ∃ t, label = .text t) (files : List ResourceFile)
    (hfiles : FailContained files) (cancelled : Bool) :
    (SomeEndsRun job cancelled (ResourceGroup.ofAll files) →
      (run job files cancelled).result = .error .longIndex) ∧
    (¬ SomeEndsRun job cancelled (ResourceGroup.ofAll files) →
      ∃ out, (run job files cancelled).result = .ok out ∧
        out.artifacts.map (·.hintName) =
          (ResourceGroup.ofAll files).map fun g => artifactName g.key) :=
  ⟨run_fails hassembly hfiles,run_isOk hassembly hfiles⟩

def namingJob : Job :=
  ⟨"/",⟨fun _ option => if option = "ResourceName" then some "Texts" else none,fun _ => none⟩,none,
    true⟩

theorem endsRun_oneEntryFile {value : List Char} (hplain : Markup.IsPlain value)
    (hlong : ∃ digits ∈ Placeholder.indexes value, Number.maxDecimalDigits < digits.length) :
    EndsRun namingJob ⟨"a",[oneEntryFile "a.resx" value]⟩ false := by
  have hcontribution := Loading.contribution_oneEntryFile hplain "a.resx"
  refine ⟨⟨_,_,rfl,rfl⟩,?_,⟨some "x",some (String.ofList value),none,none⟩,?_,rfl,rfl,_,rfl,?_⟩
  · simp [ResourceGroup.sortFiles,Loading.ReadsAll,hcontribution,Loading.added]
  · simp [Loading.allDeclarations,ResourceGroup.sortFiles,Loading.declarations,hcontribution,
      Loading.added,Merge.entries,Merge.addAll,Merge.add]
  · rwa [String.toList_ofList]

/-- A placeholder whose index has one digit too many. -/
def overlongPlaceholder : List Char :=
  '\x7b' :: List.replicate (Number.maxDecimalDigits + 1) '0' ++ ['\x7d']

theorem isPlain_overlongPlaceholder : Markup.IsPlain overlongPlaceholder := by
  refine ⟨by simp [overlongPlaceholder],?_⟩
  intro c hc
  simp only [overlongPlaceholder,List.cons_append,List.mem_cons,List.mem_append,
    List.mem_replicate,List.not_mem_nil,or_false] at hc
  rcases hc with rfl | ⟨-,rfl⟩ | rfl <;> decide

theorem exists_overlong_index :
    ∃ digits ∈ Placeholder.indexes overlongPlaceholder,
      Number.maxDecimalDigits < digits.length := by
  refine ⟨List.replicate (Number.maxDecimalDigits + 1) '0',?_,?_⟩
  · refine Placeholder.mem_indexes_braced (by simp) ?_
    intro c hc
    rw [List.eq_of_mem_replicate hc]
    decide
  · rw [List.length_replicate]
    exact Nat.lt_succ_self _

/-- One placeholder is enough to end a run. -/
theorem run_fails_at_overlongPlaceholder :
    (∀ label ∈ namingJob.assemblyName, ∃ t, label = .text t) ∧
    FailContained [oneEntryFile "a.resx" overlongPlaceholder] ∧
    SomeEndsRun namingJob false
      (ResourceGroup.ofAll [oneEntryFile "a.resx" overlongPlaceholder]) ∧
    (run namingJob [oneEntryFile "a.resx" overlongPlaceholder] false).result =
      .error .longIndex := by
  have hassembly : ∀ label ∈ namingJob.assemblyName, ∃ t, label = .text t := by
    simp [namingJob]
  have hcontained : FailContained [oneEntryFile "a.resx" overlongPlaceholder] := by
    simp [FailContained,oneEntryFile,ResourceFile.ofText]
  have hleave : LeaveToken [oneEntryFile "a.resx" overlongPlaceholder] := by
    simp [LeaveToken,oneEntryFile,ResourceFile.ofText]
  have hpath : Key.isResourcePath "a.resx" = true := by decide
  have hmem : (⟨Key.ofPath "a.resx",[oneEntryFile "a.resx" overlongPlaceholder]⟩ : ResourceGroup) ∈
      ResourceGroup.ofAll [oneEntryFile "a.resx" overlongPlaceholder] := by
    refine ResourceGroup.mem_ofAll_of_ordered ?_ (List.pairwise_singleton _ _)
    intro f hf
    rw [List.mem_singleton.mp hf]
    exact ⟨hpath,rfl⟩
  rw [show Key.ofPath "a.resx" = "a" by decide] at hmem
  have hsome := someEndsRun_of_mem hleave hmem
    (endsRun_oneEntryFile isPlain_overlongPlaceholder exists_overlong_index)
  exact ⟨hassembly,hcontained,hsome,
    (run_survives_unless_overlong namingJob hassembly _ hcontained false).1 hsome⟩

end Generate
end TypedResources

import Mathlib.Data.Prod.Lex
import Mathlib.Data.Set.Finite.Lemmas
import TypedResources.Proofs.Cancellation
import TypedResources.Proofs.Logging
import TypedResources.Proofs.Partition
import TypedResources.Proofs.Remerging

/-! Loading a group is all or nothing. Its files are asked in the order of their paths up to the
first that is of no use, which alone decides how loading ends; without such a file all of them are
asked and merged. The order in which the group lists its files does not matter. -/
namespace TypedResources
namespace Loading

/-- The file's host fails in a contained way, or gives a text that is no resource document. -/
def IsBad (f : ResourceFile) : Prop :=
  (∃ fault, f.content = .error fault ∧ fault.isContained = true) ∨
    ∃ text, f.content = .ok (some text) ∧ Resx.parse text = none

/-- The file's host fails in a way that ends the run. -/
def IsFatal (f : ResourceFile) : Prop :=
  ∃ fault, f.content = .error fault ∧ fault.isContained = false

def parsed? (f : ResourceFile) : Option (List Entry) :=
  match f.content with
  | .ok (some text) => Resx.parse text
  | _ => none

/-- Of the files that are bad or fatal, this is the one whose path comes first. -/
structure FirstFault (files : List ResourceFile) (f : ResourceFile) : Prop where
  mem : f ∈ files
  faulty : IsBad f ∨ IsFatal f
  least : ∀ x ∈ files, IsBad x ∨ IsFatal x →
    toLex (Key.order f.path) ≤ toLex (Key.order x.path)

structure InOrder (files ordered : List ResourceFile) : Prop where
  perm : ordered.Perm files
  rising : ordered.Pairwise fun a b => toLex (Key.order a.path) < toLex (Key.order b.path)

/-- Loading asked the files up to this one and ended there: a bad file is reported, and nothing
else is; a fatal one ends the run, and nothing is reported. -/
structure StopsAt (files : List ResourceFile) (f : ResourceFile) (t : Trace Loaded) : Prop where
  asked : ∃ earlier later, InOrder files (earlier ++ f :: later) ∧ t.asked = earlier ++ [f]
  bad : IsBad f → t.result = .ok ⟨none,[.unreadableFile f.path]⟩ ∧
    t.warnings = [(Diagnostic.unreadableFile f.path).logRecord]
  fatal : ∀ fault, f.content = .error fault → fault.isContained = false →
    t.result = .error (.unreadable fault) ∧ t.log = []

/-- Loading asked all files and merged what those with a text declare; nothing is reported. -/
structure LoadsAll (files : List ResourceFile) (t : Trace Loaded) : Prop where
  asked : InOrder files t.asked
  merged : t.result = .ok ⟨some ((t.asked.filterMap parsed?).foldl Merge.addAll []),[]⟩
  silent : t.log = []

theorem contribution_of_isBad {f : ResourceFile} (h : IsBad f) :
    contribution f.content = .unusable := by
  rcases h with ⟨fault,hf,hcontained⟩ | ⟨text,hf,hparse⟩
  · simp [hf,contribution,hcontained]
  · simp [hf,contribution,hparse]

theorem contribution_of_fatal {f : ResourceFile} {fault : ReadFault}
    (hf : f.content = .error fault) (h : fault.isContained = false) :
    contribution f.content = .failed (.unreadable fault) := by
  simp [hf,contribution,h]

/-- A file is read exactly when it is neither bad nor fatal. -/
theorem not_isRead_iff (f : ResourceFile) : ¬ IsRead f ↔ IsBad f ∨ IsFatal f := by
  constructor
  · intro h
    unfold IsRead contribution at h
    cases hf : f.content with
    | error fault =>
      cases hcontained : fault.isContained with
      | true => exact Or.inl (Or.inl ⟨fault,hf,hcontained⟩)
      | false => exact Or.inr ⟨fault,hf,hcontained⟩
    | ok content =>
      cases content with
      | none => simp [hf,added] at h
      | some text =>
        cases hparse : Resx.parse text with
        | none => exact Or.inl (Or.inr ⟨text,hf,hparse⟩)
        | some entries => simp [hf,hparse,added] at h
  · rintro (hbad | ⟨fault,hf,hfatal⟩)
    · simp [IsRead,contribution_of_isBad hbad,added]
    · simp [IsRead,contribution_of_fatal hf hfatal,added]

theorem declarations_eq_parsed? (f : ResourceFile) : declarations f = (parsed? f).getD [] := by
  unfold declarations contribution parsed?
  cases hf : f.content with
  | error fault => cases hcontained : fault.isContained <;> simp [hcontained,added]
  | ok content =>
    cases content with
    | none => rfl
    | some text => cases hparse : Resx.parse text <;> simp [hparse,added]

theorem flatten_filterMap_parsed? (files : List ResourceFile) :
    (files.filterMap parsed?).flatten = files.flatMap declarations := by
  induction files with
  | nil => rfl
  | cons f rest ih =>
    rw [List.flatMap_cons,declarations_eq_parsed?,← ih]
    cases hf : parsed? f <;> simp [hf]

theorem inOrder_sortFiles {files : List ResourceFile} (h : (files.map (·.path)).Nodup) :
    InOrder files (ResourceGroup.sortFiles files) where
  perm := ResourceGroup.sortFiles_perm files
  rising := by
    have hnodup : ((ResourceGroup.sortFiles files).map (·.path)).Nodup :=
      ((ResourceGroup.sortFiles_perm files).map _).nodup_iff.mpr h
    have hdistinct := List.pairwise_map.mp hnodup
    refine ((ResourceGroup.sortFiles_ordered files).and hdistinct).imp ?_
    rintro a b ⟨hab,hne⟩
    rw [ResourceGroup.orderedBefore_iff_lex] at hab
    refine lt_of_le_of_ne hab fun he => hne ?_
    exact congrArg Prod.snd (toLex_inj.mp he)

theorem exists_firstFault {files : List ResourceFile} (h : ∃ x ∈ files, IsBad x ∨ IsFatal x) :
    ∃ f, FirstFault files f := by
  have hfinite : {x | x ∈ files ∧ (IsBad x ∨ IsFatal x)}.Finite :=
    (List.finite_toSet files).subset fun _ hx => hx.1
  obtain ⟨f,⟨hmem,hfaulty⟩,hleast⟩ :=
    Set.exists_min_image _ (fun x => toLex (Key.order x.path)) hfinite h
  exact ⟨f,hmem,hfaulty,fun x hx hxf => hleast x ⟨hx,hxf⟩⟩

/-- The files that come before the first fault are read. -/
theorem FirstFault.exists_split {files ordered : List ResourceFile} {f : ResourceFile}
    (h : FirstFault files f) (hordered : InOrder files ordered) :
    ∃ earlier later, ordered = earlier ++ f :: later ∧ ∀ x ∈ earlier, IsRead x := by
  obtain ⟨earlier,later,rfl⟩ := List.append_of_mem (hordered.perm.mem_iff.mpr h.mem)
  refine ⟨earlier,later,rfl,?_⟩
  intro x hx
  by_contra hread
  have hbefore := (List.pairwise_append.mp hordered.rising).2.2 x hx f (by simp)
  have hmem : x ∈ files := hordered.perm.mem_iff.mp (by simp [hx])
  exact absurd (h.least x hmem ((not_isRead_iff x).mp hread)) (not_le.mpr hbefore)

/-- A file that is read logs nothing. -/
theorem loadFrom_cons_log_of_isRead {f : ResourceFile} (h : IsRead f) (merged : List Entry)
    (files : List ResourceFile) :
    (loadFrom merged false (f :: files)).log =
      (loadFrom (Merge.addAll merged (declarations f)) f.cancels files).log := by
  have hcontent : f.read false = f.content := rfl
  rw [loadFrom_cons_log,hcontent]
  unfold IsRead at h
  unfold declarations
  cases hc : contribution f.content with
  | entries found => rfl
  | nothing => rfl
  | unusable => simp [hc,added] at h
  | failed failure => simp [hc,added] at h

theorem loadFrom_append_log {earlier : List ResourceFile} (h : Passed earlier)
    (merged : List Entry) (files : List ResourceFile) :
    (loadFrom merged false (earlier ++ files)).log =
      (loadFrom (Merge.addAll merged (earlier.flatMap declarations)) false files).log := by
  induction earlier generalizing merged with
  | nil => rfl
  | cons f rest ih =>
    obtain ⟨hcancels,hread⟩ := h f (by simp)
    have hrest : Passed rest := fun x hx => h x (by simp [hx])
    rw [List.cons_append,loadFrom_cons_log_of_isRead hread,hcancels,ih hrest,List.flatMap_cons,
      Merge.addAll_append]

section Order

variable {files ordered : List ResourceFile} (hordered : InOrder files ordered)
  (hleave : LeaveToken ordered)
include hordered hleave

theorem stopsAt_of_firstFault {f : ResourceFile} (h : FirstFault files f) :
    StopsAt files f (loadFrom [] false ordered) := by
  obtain ⟨earlier,later,rfl,hread⟩ := h.exists_split hordered
  have hpassed : Passed earlier := fun x hx => ⟨hleave x (by simp [hx]),hread x hx⟩
  have hcontent : f.read false = f.content := rfl
  obtain ⟨hresult,-,hasked⟩ := loadFrom_append hpassed [] (f :: later)
  have hlog := loadFrom_append_log hpassed [] (f :: later)
  rw [loadFrom_cons_result,hcontent] at hresult
  rw [loadFrom_cons_log,hcontent] at hlog
  refine ⟨⟨earlier,later,hordered,?_⟩,?_,?_⟩
  · rw [hasked,(loadFrom_cons_of_not_isRead ((not_isRead_iff f).mpr h.faulty) _ _).2.2]
  · intro hbad
    rw [contribution_of_isBad hbad] at hresult hlog
    refine ⟨hresult,?_⟩
    rw [Trace.warnings,hlog]
    rfl
  · intro fault hf hfatal
    rw [contribution_of_fatal hf hfatal] at hresult hlog
    exact ⟨hresult,hlog⟩

theorem loadsAll_of_all_read (h : ∀ x ∈ ordered, IsRead x) :
    LoadsAll files (loadFrom [] false ordered) := by
  have hpassed : Passed ordered := fun x hx => ⟨hleave x hx,h x hx⟩
  obtain ⟨hresult,-,hasked⟩ := loadFrom_append hpassed [] []
  have hlog := loadFrom_append_log hpassed [] []
  rw [List.append_nil] at hresult hasked hlog
  have hall : (loadFrom [] false ordered).asked = ordered := by
    rw [hasked]
    exact List.append_nil _
  refine ⟨?_,?_,hlog⟩
  · rw [hall]
    exact hordered
  · rw [hall,hresult,Merge.foldl_addAll_eq_entries,flatten_filterMap_parsed?]
    rfl

end Order

/-- A group whose files have different paths and whose hosts leave the token alone is loaded all or
not at all, as its first fault decides. -/
theorem loads_all_or_nothing {g : ResourceGroup} (hpaths : g.paths.Nodup)
    (hleave : LeaveToken g.files) :
    (∀ f, FirstFault g.files f → StopsAt g.files f (load g false)) ∧
      ((∀ f, ¬ FirstFault g.files f) → LoadsAll g.files (load g false)) := by
  have hordered : InOrder g.files (ResourceGroup.sortFiles g.files) := inOrder_sortFiles hpaths
  have hleave' : LeaveToken (ResourceGroup.sortFiles g.files) :=
    fun x hx => hleave x (hordered.perm.mem_iff.mp hx)
  refine ⟨fun f hf => stopsAt_of_firstFault hordered hleave' hf,?_⟩
  intro hnone
  refine loadsAll_of_all_read hordered hleave' fun x hx => ?_
  by_contra hread
  have hfaulty : ∃ x ∈ g.files, IsBad x ∨ IsFatal x :=
    ⟨x,hordered.perm.mem_iff.mp hx,(not_isRead_iff x).mp hread⟩
  obtain ⟨f,hf⟩ := exists_firstFault hfaulty
  exact hnone f hf

/-- Three variants of a resource, with what the hosts of the two translations give. -/
def threeVariants (french german : Except ReadFault (Option String)) : ResourceGroup :=
  ⟨"b",[⟨"b.fr.resx",false,french⟩,oneEntryFile "b.resx" "Open".toList,
    ⟨"b.de.resx",false,german⟩]⟩

theorem isRead_oneEntryFile {value : List Char} (h : Markup.IsPlain value) (path : String) :
    IsRead (oneEntryFile path value) := by
  simp [IsRead,contribution_oneEntryFile h path,added]

theorem isRead_open : IsRead (oneEntryFile "b.resx" "Open".toList) :=
  isRead_oneEntryFile (by simp [Markup.IsPlain,Markup.isChar]) _

theorem paths_threeVariants (french german : Except ReadFault (Option String)) :
    (threeVariants french german).paths.Nodup := by
  simp [threeVariants,ResourceGroup.paths,oneEntryFile,ResourceFile.ofText]

theorem leaveToken_threeVariants (french german : Except ReadFault (Option String)) :
    LeaveToken (threeVariants french german).files := by
  simp [LeaveToken,threeVariants,oneEntryFile,ResourceFile.ofText]

theorem firstFault_threeVariants (french : Except ReadFault (Option String))
    {german : Except ReadFault (Option String)}
    (h : IsBad ⟨"b.de.resx",false,german⟩ ∨ IsFatal ⟨"b.de.resx",false,german⟩) :
    FirstFault (threeVariants french german).files ⟨"b.de.resx",false,german⟩ := by
  have hbefore : Key.orderedBefore "b.de.resx" "b.fr.resx" = true := by decide
  refine ⟨by simp [threeVariants],h,?_⟩
  intro x hx hfaulty
  simp only [threeVariants,List.mem_cons,List.not_mem_nil,or_false] at hx
  rcases hx with rfl | rfl | rfl
  · exact (ResourceGroup.orderedBefore_iff_lex _ _).mp hbefore
  · exact absurd isRead_open ((not_isRead_iff _).mpr hfaulty)
  · exact le_refl _

/-- The German file stops loading, be it bad or fatal, although the French one is listed first and
is fatal too. Without faults all three are loaded. -/
theorem variants_load_all_or_nothing :
    (∀ fault ∈ [ReadFault.denied,ReadFault.illFormed,ReadFault.crashed],
      (threeVariants (.error .crashed) (.error fault)).paths.Nodup ∧
      LeaveToken (threeVariants (.error .crashed) (.error fault)).files ∧
      FirstFault (threeVariants (.error .crashed) (.error fault)).files
        ⟨"b.de.resx",false,.error fault⟩ ∧
      StopsAt (threeVariants (.error .crashed) (.error fault)).files
        ⟨"b.de.resx",false,.error fault⟩
        (load (threeVariants (.error .crashed) (.error fault)) false)) ∧
    (∀ f, ¬ FirstFault (threeVariants (.ok none) (.ok none)).files f) ∧
      LoadsAll (threeVariants (.ok none) (.ok none)).files
        (load (threeVariants (.ok none) (.ok none)) false) := by
  have hnone : ∀ f, ¬ FirstFault (threeVariants (.ok none) (.ok none)).files f := by
    intro f hf
    have hread := (not_isRead_iff f).mpr hf.faulty
    have hmem := hf.mem
    simp only [threeVariants,List.mem_cons,List.not_mem_nil,or_false] at hmem
    rcases hmem with rfl | rfl | rfl
    · exact hread rfl
    · exact hread isRead_open
    · exact hread rfl
  refine ⟨?_,hnone,?_⟩
  · intro fault hfault
    have hfaulty : IsBad ⟨"b.de.resx",false,.error fault⟩ ∨
        IsFatal ⟨"b.de.resx",false,.error fault⟩ := by
      simp only [List.mem_cons,List.not_mem_nil,or_false] at hfault
      rcases hfault with rfl | rfl | rfl
      · exact Or.inl (Or.inl ⟨.denied,rfl,rfl⟩)
      · exact Or.inl (Or.inl ⟨.illFormed,rfl,rfl⟩)
      · exact Or.inr ⟨.crashed,rfl,rfl⟩
    have hfirst := firstFault_threeVariants (.error .crashed) hfaulty
    have hpaths := paths_threeVariants (.error .crashed) (.error fault)
    have hleave := leaveToken_threeVariants (.error .crashed) (.error fault)
    exact ⟨hpaths,hleave,hfirst,(loads_all_or_nothing hpaths hleave).1 _ hfirst⟩
  · exact (loads_all_or_nothing (paths_threeVariants _ _) (leaveToken_threeVariants _ _)).2 hnone

end Loading

/-- A fault of the system, a wrong value, or a cancellation. -/
def ReadFault.isOrdinary : ReadFault → Bool
  | .illFormed | .crashed | .unknownKey | .wrongKind => false
  | _ => true

namespace Loading

/-- A host that finds ill-formed markup itself does not end the run: its file is reported. -/
theorem illFormed_reported : ReadFault.illFormed.isOrdinary = false ∧
    (load ⟨"a",[⟨"a.resx",false,.error .illFormed⟩]⟩ false).result =
      .ok ⟨none,[.unreadableFile "a.resx"]⟩ ∧
    (load ⟨"a",[⟨"a.resx",false,.error .illFormed⟩]⟩ false).result ≠
      .error (.unreadable .illFormed) := by
  have hload : (load ⟨"a",[⟨"a.resx",false,.error .illFormed⟩]⟩ false).result =
      .ok ⟨none,[.unreadableFile "a.resx"]⟩ := by
    rw [load,loadWith,ResourceGroup.sortFiles,List.mergeSort_singleton]
    rfl
  exact ⟨rfl,hload,by simp [hload]⟩

end Loading
end TypedResources

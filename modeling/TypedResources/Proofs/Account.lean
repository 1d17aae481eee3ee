import TypedResources.Proofs.Survival

/-! What a group reports and what its artifact shows: the two go by the same conditions. -/
namespace TypedResources

namespace AccessorClass

def body (c : AccessorClass) : List String :=
  ["    internal partial class " ++ c.style.className,
    "    \x7b",
    "        private " ++ c.style.shared ++
      "global::System.Resources.ResourceManager? resourceMan;",
    "",
    "        public " ++ c.style.className ++ "() \x7b \x7d"] ++
  Plumbing.lines c.style ++ c.accessors.flatMap (Accessor.lines c.style.shared) ++ middle c ++
    c.names.map constantLine ++ ["    \x7d"]

def enclosed (lines : List String) : Option String → List String
  | some scope => ["namespace " ++ scope,"\x7b"] ++ lines ++ ["\x7d"]
  | none => lines

theorem lines_eq (c : AccessorClass) :
    c.lines = ["","#nullable enable"] ++ enclosed (body c) c.scope := by
  cases hscope : c.scope <;> simp [lines,opening,closing,body,enclosed,hscope]

theorem render_ne_empty (c : AccessorClass) : c.render ≠ "" := by
  intro h
  have hlist := congrArg String.toList h
  rw [render,lines_eq] at hlist
  simp [Text.unlines] at hlist

theorem scope_of_ofEntries {scope : Option String} {style : Plumbing.Style} {entries : List Entry}
    {c : AccessorClass} (h : ofEntries scope style entries = .ok c) : c.scope = scope := by
  obtain ⟨accessors,-,hc⟩ := Except.bind_eq_ok_iff.mp h
  obtain rfl := Except.ok.inj hc
  rfl

theorem style_of_ofEntries {scope : Option String} {style : Plumbing.Style} {entries : List Entry}
    {c : AccessorClass} (h : ofEntries scope style entries = .ok c) : c.style = style := by
  obtain ⟨accessors,-,hc⟩ := Except.bind_eq_ok_iff.mp h
  obtain rfl := Except.ok.inj hc
  rfl

end AccessorClass

namespace Diagnostic

/-- The reports of a group: conflicting options, then a namespace and a name that were not found,
then a file that could not be used. -/
def account (conflicts : List (String × String)) (namespaceAt nameAt fileAt : Option String) :
    List Diagnostic :=
  conflicts.map Settings.reportConflict ++ (namespaceAt.map unresolvedNamespace).toList ++
    (nameAt.map unresolvedResourceName).toList ++ (fileAt.map unreadableFile).toList

theorem account_ids (conflicts : List (String × String))
    (namespaceAt nameAt fileAt : Option String) :
    (account conflicts namespaceAt nameAt fileAt).map (·.id) =
      conflicts.map (fun _ => "RESXG004") ++ (namespaceAt.map fun _ => "RESXG002").toList ++
        (nameAt.map fun _ => "RESXG003").toList ++ (fileAt.map fun _ => "RESXG001").toList := by
  rw [account]
  simp only [List.map_append,List.map_map]
  cases namespaceAt <;> cases nameAt <;> cases fileAt <;> rfl

def Holds (id : String) (ds : List Diagnostic) : Prop := ∃ d ∈ ds, d.id = id

theorem holds_iff (id : String) (ds : List Diagnostic) : Holds id ds ↔ id ∈ ds.map (·.id) :=
  List.mem_map.symm

theorem holds_account (conflicts : List (String × String))
    (namespaceAt nameAt fileAt : Option String) :
    (Holds "RESXG002" (account conflicts namespaceAt nameAt fileAt) ↔ namespaceAt.isSome) ∧
    (Holds "RESXG003" (account conflicts namespaceAt nameAt fileAt) ↔ nameAt.isSome) ∧
    (Holds "RESXG001" (account conflicts namespaceAt nameAt fileAt) ↔ fileAt.isSome) := by
  simp only [holds_iff,account_ids,List.mem_append,List.mem_map]
  cases namespaceAt <;> cases nameAt <;> cases fileAt <;> simp

end Diagnostic

namespace Generate

/-- What a group reports and shows, by its settings, by the entries it loaded, by the file its
settings are reported at and by the file that ended loading, if one did. -/
structure Accounted (job : Job) (g : ResourceGroup) (settings : Settings)
    (entries : Option (List Entry)) (first file : ResourceFile)
    (made : Artifact × List Diagnostic) : Prop where
  reports : ∃ conflicts,
    conflicts.map (·.1) =
      Settings.optionNames.filter (fun name => Lookup.Disagree job.options name g.paths) ∧
    (∀ conflict ∈ conflicts, conflict.2 ∈ g.paths) ∧
    made.2 = Diagnostic.account conflicts
      (if settings.targetNamespace = none then some first.path else none)
      (if settings.resourceName = none then some first.path else none)
      (if entries = none then some file.path else none)
  headerAlone : made.1.text = Header.render g.key g.paths settings ↔
    Diagnostic.Holds "RESXG003" made.2 ∨ Diagnostic.Holds "RESXG001" made.2
  wholeClass : ¬ (Diagnostic.Holds "RESXG003" made.2 ∨ Diagnostic.Holds "RESXG001" made.2) →
    ∃ resourceName found c, settings.resourceName = some resourceName ∧ entries = some found ∧
      AccessorClass.ofEntries settings.targetNamespace ⟨settings.className,resourceName,
        settings.useInstanceMembers,job.supportsNullableAttributes⟩ found = .ok c ∧
      made.1.text = Header.render g.key g.paths settings ++
        Text.unlines (["","#nullable enable"] ++
          AccessorClass.enclosed c.body settings.targetNamespace)
  unscoped : settings.targetNamespace = none ↔ Diagnostic.Holds "RESXG002" made.2

theorem account_of_resolve {job : Job} {g : ResourceGroup} {settings : Settings}
    {early : List Diagnostic}
    (hs : Settings.resolve job.current job.options job.assemblyName g = .ok (settings,early)) :
    ∃ first ∈ g.files, early = Diagnostic.account (Settings.conflicts job.options g.paths)
      (if settings.targetNamespace = none then some first.path else none)
      (if settings.resourceName = none then some first.path else none) none := by
  obtain ⟨first,rest,hfiles,rfl⟩ := Settings.resolve_reports hs
  refine ⟨first,by simp [hfiles],?_⟩
  cases hn : settings.targetNamespace <;> cases hr : settings.resourceName <;>
    simp [Diagnostic.account,Settings.unresolved]

/-- A class is made as soon as there are a name and entries. -/
theorem classFor_eq_ok {job : Job} {settings : Settings} {entries : Option (List Entry)}
    {c? : Option AccessorClass} (h : classFor job settings entries = .ok c?) :
    ((settings.resourceName = none ∨ entries = none) ∧ c? = none) ∨
    ∃ resourceName found c, settings.resourceName = some resourceName ∧ entries = some found ∧
      AccessorClass.ofEntries settings.targetNamespace ⟨settings.className,resourceName,
        settings.useInstanceMembers,job.supportsNullableAttributes⟩ found = .ok c ∧
      c? = some c := by
  unfold classFor at h
  cases hname : settings.resourceName with
  | none =>
    rw [hname] at h
    obtain rfl := Except.ok.inj h
    exact Or.inl ⟨Or.inl rfl,rfl⟩
  | some resourceName =>
    rw [hname] at h
    cases entries with
    | none =>
      obtain rfl := Except.ok.inj h
      exact Or.inl ⟨Or.inr rfl,rfl⟩
    | some found =>
      obtain ⟨c,hmade,hok⟩ := Except.bind_eq_ok_iff.mp h
      obtain rfl := Except.ok.inj hok
      exact Or.inr ⟨resourceName,found,c,rfl,rfl,hmade,rfl⟩

theorem scope_of_classFor {job : Job} {settings : Settings} {entries : Option (List Entry)}
    {c : AccessorClass} (h : classFor job settings entries = .ok (some c)) :
    c.scope = settings.targetNamespace ∧ c.style.className = settings.className := by
  rcases classFor_eq_ok h with ⟨-,hnone⟩ | ⟨resourceName,found,made,-,-,hmade,hc⟩
  · cases hnone
  · obtain rfl := Option.some.inj hc
    exact ⟨AccessorClass.scope_of_ofEntries hmade,by rw [AccessorClass.style_of_ofEntries hmade]⟩

/-- The text of an artifact is the header, and the class as soon as there are a name and entries. -/
theorem artifact_text {job : Job} {g : ResourceGroup} {settings : Settings}
    {entries : Option (List Entry)} {a : Artifact} (h : artifact job g settings entries = .ok a) :
    ((settings.resourceName = none ∨ entries = none) ∧
      a.text = Header.render g.key g.paths settings) ∨
    ∃ resourceName found c, settings.resourceName = some resourceName ∧ entries = some found ∧
      AccessorClass.ofEntries settings.targetNamespace ⟨settings.className,resourceName,
        settings.useInstanceMembers,job.supportsNullableAttributes⟩ found = .ok c ∧
      a.text = Header.render g.key g.paths settings ++ c.render := by
  obtain ⟨c?,hc,rfl⟩ := (Except.map_eq_ok_iff _ _ _).mp h
  rcases classFor_eq_ok hc with ⟨hnone,rfl⟩ | ⟨resourceName,found,c,hname,hfound,hmade,rfl⟩
  · exact Or.inl ⟨hnone,by simp [artifactText]⟩
  · exact Or.inr ⟨resourceName,found,c,hname,hfound,hmade,by simp [artifactText]⟩

/-- Loading reports the file that ended it, and nothing else. -/
theorem reports_of_load {g : ResourceGroup} (hg : g.files ≠ []) {cancelled : Bool}
    {loaded : Loading.Loaded} (h : (Loading.load g cancelled).result = .ok loaded) :
    ∃ file ∈ g.files, loaded.diagnostics =
      ((if loaded.entries = none then some file.path else none).map
        Diagnostic.unreadableFile).toList := by
  rcases Loading.load_outcome h with ⟨found,rfl⟩ | ⟨file,hfile,rfl⟩
  · obtain ⟨first,hfirst⟩ := List.exists_mem_of_ne_nil g.files hg
    exact ⟨first,hfirst,by simp⟩
  · exact ⟨file,hfile,rfl⟩

section Artifact

variable {job : Job} {g : ResourceGroup} {settings : Settings} {entries : Option (List Entry)}
  {a : Artifact} (h : artifact job g settings entries = .ok a)
include h

theorem text_eq_header_iff :
    a.text = Header.render g.key g.paths settings ↔
      settings.resourceName = none ∨ entries = none := by
  rcases artifact_text h with ⟨hnone,htext⟩ | ⟨resourceName,found,c,hr,rfl,-,htext⟩
  · simp only [hnone,htext]
  · rw [htext,String.append_eq_left_iff]
    simp [hr,c.render_ne_empty]

theorem text_of_complete (hlong : ¬ (settings.resourceName = none ∨ entries = none)) :
    ∃ resourceName found c, settings.resourceName = some resourceName ∧ entries = some found ∧
      AccessorClass.ofEntries settings.targetNamespace ⟨settings.className,resourceName,
        settings.useInstanceMembers,job.supportsNullableAttributes⟩ found = .ok c ∧
      a.text = Header.render g.key g.paths settings ++
        Text.unlines (["","#nullable enable"] ++
          AccessorClass.enclosed c.body settings.targetNamespace) := by
  rcases artifact_text h with ⟨hnone,-⟩ | ⟨resourceName,found,c,hr,he,hc,htext⟩
  · exact absurd hnone hlong
  · refine ⟨resourceName,found,c,hr,he,hc,?_⟩
    rw [htext,AccessorClass.render,AccessorClass.lines_eq,AccessorClass.scope_of_ofEntries hc]

end Artifact

/-- The reports of a group tell what its artifact shows. -/
theorem group_accounts_for_text {job : Job} {g : ResourceGroup} {cancelled : Bool}
    {made : Artifact × List Diagnostic} (h : (group job g cancelled).result = .ok made) :
    ∃ settings early entries failed, ∃ first ∈ g.files, ∃ file ∈ g.files,
      Settings.resolve job.current job.options job.assemblyName g = .ok (settings,early) ∧
      (Loading.load g cancelled).result = .ok ⟨entries,failed⟩ ∧
      (entries = none ↔ ¬ Loading.ReadsAll cancelled (ResourceGroup.sortFiles g.files)) ∧
      Accounted job g settings entries first file made := by
  obtain ⟨settings,early,⟨entries,failed⟩,hs,hl,ha,hd⟩ := (group_result_eq_ok _ _ _ _).mp h
  obtain ⟨first,hfirst,hearly⟩ := account_of_resolve hs
  obtain ⟨file,hfile,hfailed⟩ := reports_of_load (List.ne_nil_of_mem hfirst) hl
  have hreports : made.2 = Diagnostic.account (Settings.conflicts job.options g.paths)
      (if settings.targetNamespace = none then some first.path else none)
      (if settings.resourceName = none then some first.path else none)
      (if entries = none then some file.path else none) := by
    rw [hd,hearly,hfailed]
    simp [Diagnostic.account]
  have hids := Diagnostic.holds_account (Settings.conflicts job.options g.paths)
    (if settings.targetNamespace = none then some first.path else none)
    (if settings.resourceName = none then some first.path else none)
    (if entries = none then some file.path else none)
  rw [← hreports] at hids
  obtain ⟨hspace,hname,hload⟩ := hids
  have hshort : Diagnostic.Holds "RESXG003" made.2 ∨ Diagnostic.Holds "RESXG001" made.2 ↔
      settings.resourceName = none ∨ entries = none := by
    rw [hname,hload]
    cases settings.resourceName <;> cases entries <;> simp
  refine ⟨settings,early,entries,failed,first,hfirst,file,hfile,hs,hl,
    Loading.entries_eq_none_iff hl,?_,?_,?_,?_⟩
  · exact ⟨_,Settings.conflicts_names _ _,fun _ => Settings.mem_paths_of_mem_conflicts,hreports⟩
  · rw [hshort]
    exact text_eq_header_iff ha
  · rw [hshort]
    exact text_of_complete ha
  · rw [hspace]
    cases settings.targetNamespace <;> simp

/-- A job under which every file asks for a class of its own. -/
def contradictingJob : Job :=
  ⟨"/",⟨fun path option => if option = "ClassName" then some path else none,fun _ => none⟩,none,
    true⟩

def twoFiles : ResourceGroup :=
  ⟨"a",[oneEntryFile "a.resx" "Open".toList,oneEntryFile "a.fr.resx" "Ouvrir".toList]⟩

theorem twoFiles_account_for_text :
    ∃ made, (group contradictingJob twoFiles false).result = .ok made ∧
      Diagnostic.Holds "RESXG004" made.2 ∧
      ∃ settings entries first file, Accounted contradictingJob twoFiles settings entries first file
        made := by
  have hshort : ∀ f ∈ twoFiles.files, ∀ e ∈ Loading.declarations f, ¬ e.IsOverlong := by
    intro f hf
    simp only [twoFiles,List.mem_cons,List.not_mem_nil,or_false] at hf
    rcases hf with rfl | rfl <;>
      exact not_isOverlong_oneEntryFile (by simp [Markup.IsPlain,Markup.isChar])
        (by simp [Number.maxDecimalDigits]) _
  have hcontained : FailContained twoFiles.files := by
    simp [FailContained,twoFiles,oneEntryFile,ResourceFile.ofText]
  obtain ⟨-,-,hok⟩ := @group_survives contradictingJob (by simp [contradictingJob]) twoFiles
    (by simp [twoFiles]) hcontained false
  obtain ⟨made,hmade⟩ := hok (not_endsRun hshort contradictingJob false)
  obtain ⟨settings,early,entries,failed,first,-,file,-,-,-,-,haccount⟩ :=
    group_accounts_for_text hmade
  refine ⟨made,hmade,?_,settings,entries,first,file,haccount⟩
  obtain ⟨conflicts,hnames,-,hreports⟩ := haccount.reports
  have hfound : Settings.optionNames.filter (fun name =>
      Lookup.Disagree contradictingJob.options name twoFiles.paths) = ["ClassName"] := by decide
  rw [hfound] at hnames
  obtain ⟨conflict,hconflict,-⟩ := List.mem_map.mp (hnames ▸ List.mem_singleton_self "ClassName")
  refine ⟨Settings.reportConflict conflict,?_,rfl⟩
  rw [hreports,Diagnostic.account]
  simp only [List.mem_append]
  exact Or.inl (Or.inl (Or.inl (List.mem_map_of_mem hconflict)))

end Generate
end TypedResources

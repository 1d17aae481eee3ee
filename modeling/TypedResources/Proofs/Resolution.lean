import TypedResources.General.Except
import TypedResources.Proofs.Agreement
import TypedResources.Settings.Resolve

/-! What resolving the settings of a group reports: the options on which its files disagree, then
the names that were not found. -/
namespace TypedResources

namespace Lookup

def Disagree (options : Options) (name : String) (paths : List String) : Prop :=
  ∃ p ∈ paths, ∃ q ∈ paths, ∃ v ∈ options.file p name, ∃ w ∈ options.file q name, v ≠ w

def dissenter? (options : Options) (name : String) (paths : List String) : Option String :=
  match fileValue options name paths with
  | .error path => some path
  | .ok _ => none

theorem find_reports (options : Options) (name : String) (globalName : Option String)
    (paths : List String) :
    (find options name globalName paths).2 =
      ((dissenter? options name paths).map (Diagnostic.inconsistentOption name)).toList := by
  unfold find dissenter?
  cases fileValue options name paths <;> rfl

theorem disagree_iff (options : Options) (name : String) (paths : List String) :
    Disagree options name paths ↔ Differ (values options name paths) := by
  constructor
  · rintro ⟨p,hp,q,hq,v,hv,w,hw,hne⟩
    exact ⟨v,List.mem_filterMap.mpr ⟨p,hp,hv⟩,w,List.mem_filterMap.mpr ⟨q,hq,hw⟩,hne⟩
  · rintro ⟨v,hv,w,hw,hne⟩
    obtain ⟨p,hp,hv⟩ := List.mem_filterMap.mp hv
    obtain ⟨q,hq,hw⟩ := List.mem_filterMap.mp hw
    exact ⟨p,hp,q,hq,v,hv,w,hw,hne⟩

theorem mem_of_dissenter? {options : Options} {name path : String} {paths : List String}
    (h : dissenter? options name paths = some path) : path ∈ paths := by
  unfold dissenter? at h
  rcases fileValue_cases options name paths with ⟨-,hf⟩ | ⟨v,-,hf⟩ | ⟨other,hother,hf⟩
  · simp [hf] at h
  · simp [hf] at h
  · rw [hf] at h
    obtain rfl := Option.some.inj h
    obtain ⟨before,after,-,-,hsplit,-⟩ := hother
    simp [hsplit]

/-- A conflict is found exactly when there is one. -/
theorem dissenter?_isSome_iff (options : Options) (name : String) (paths : List String) :
    (dissenter? options name paths).isSome ↔ Disagree options name paths := by
  rw [disagree_iff]
  unfold dissenter?
  rcases fileValue_cases options name paths with ⟨hnone,hf⟩ | ⟨v,hv,hf⟩ | ⟨path,hpath,hf⟩
  · simp [hf,hnone,Differ]
  · simp [hf,not_differ_of_agreeOn hv]
  · simp [hf,differ_of_differsFirst hpath]

instance (options : Options) (name : String) (paths : List String) :
    Decidable (Disagree options name paths) :=
  decidable_of_iff _ (dissenter?_isSome_iff options name paths)

end Lookup

namespace Settings

def optionNames : List String :=
  ["RootNamespace","ProjectDir","Namespace","ResourceName","ClassName","UseInstanceMembers"]

/-- The options on which the files disagree, each with the first file that disagrees with those
before it. -/
def conflicts (options : Options) (paths : List String) : List (String × String) :=
  optionNames.filterMap fun name =>
    (Lookup.dissenter? options name paths).map (name,·)

def reportConflict (conflict : String × String) : Diagnostic :=
  .inconsistentOption conflict.1 conflict.2

theorem conflicts_names (options : Options) (paths : List String) :
    (conflicts options paths).map (·.1) =
      optionNames.filter fun name => decide (Lookup.Disagree options name paths) := by
  rw [conflicts,List.map_filterMap,← List.filterMap_eq_filter]
  congr 1
  funext name
  have hiff := Lookup.dissenter?_isSome_iff options name paths
  cases hd : Lookup.dissenter? options name paths with
  | none =>
    rw [hd] at hiff
    have hagree : ¬ Lookup.Disagree options name paths := by simpa using hiff
    simp [Option.guard,hagree]
  | some path =>
    rw [hd] at hiff
    have hdis : Lookup.Disagree options name paths := by simpa using hiff
    simp [Option.guard,hdis]

theorem mem_paths_of_mem_conflicts {options : Options} {paths : List String}
    {conflict : String × String} (h : conflict ∈ conflicts options paths) :
    conflict.2 ∈ paths := by
  obtain ⟨name,-,hname⟩ := List.mem_filterMap.mp h
  obtain ⟨path,hpath,rfl⟩ := Option.map_eq_some_iff.mp hname
  exact Lookup.mem_of_dissenter? hpath

theorem map_reportConflict (options : Options) (paths : List String) :
    (conflicts options paths).map reportConflict = optionNames.flatMap fun name =>
      ((Lookup.dissenter? options name paths).map (Diagnostic.inconsistentOption name)).toList := by
  rw [conflicts,List.map_filterMap,List.filterMap_eq_flatMap_toList]
  simp only [Option.map_map]
  rfl

def choices (options : Options) (paths : List String) : Choices where
  rootNamespace := (Lookup.find options "RootNamespace" (some "RootNamespace") paths).1
  projectDir := (Lookup.find options "ProjectDir" (some "ProjectDir") paths).1
  targetNamespace := (Lookup.find options "Namespace" (some "DefaultResourcesNamespace") paths).1
  resourceName := (Lookup.find options "ResourceName" none paths).1
  className := (Lookup.find options "ClassName" none paths).1
  useInstanceMembers := (Lookup.find options "UseInstanceMembers" none paths).1

theorem choose_eq (options : Options) (paths : List String) (reporter : Reporter) :
    choose options paths reporter =
      (choices options paths,reporter.reportAll ((conflicts options paths).map reportConflict)) := by
  simp only [map_reportConflict,optionNames,List.flatMap_cons,List.flatMap_nil,List.append_nil,
    Reporter.reportAll_append,choose,Lookup.look,Lookup.find_reports]
  rfl

def lacking (g : ResourceGroup) (s : Settings) : List Diagnostic :=
  match g.files with
  | [] => []
  | first :: _ => unresolved first.path s.targetNamespace s.resourceName

theorem reportNames_eq (g : ResourceGroup) (s : Settings) (reporter : Reporter) :
    reportNames g s reporter = reporter.reportAll (lacking g s) := by
  unfold reportNames lacking
  cases g.files <;> rfl

section Resolving

variable {current : String} {options : Options} {assemblyName : Option Label} {g : ResourceGroup}

theorem resolveWith_of_settings {settings : Settings}
    (h : ofChoices current assemblyName g (choices options g.paths) = .ok settings)
    (reporter : Reporter) : resolveWith current options assemblyName g reporter =
      (.ok settings,reporter.reportAll
        ((conflicts options g.paths).map reportConflict ++ lacking g settings)) := by
  simp only [resolveWith,choose_eq,h,reportNames_eq,Reporter.reportAll_append]

theorem resolveWith_of_failure {failure : Failure}
    (h : ofChoices current assemblyName g (choices options g.paths) = .error failure)
    (reporter : Reporter) : resolveWith current options assemblyName g reporter =
      (.error failure,reporter.reportAll ((conflicts options g.paths).map reportConflict)) := by
  simp only [resolveWith,choose_eq,h]

theorem resolve_eq_ok_iff {settings : Settings} {early : List Diagnostic} :
    resolve current options assemblyName g = .ok (settings,early) ↔
      ofChoices current assemblyName g (choices options g.paths) = .ok settings ∧
        early = (conflicts options g.paths).map reportConflict ++ lacking g settings := by
  cases h : ofChoices current assemblyName g (choices options g.paths) with
  | error failure => simp [resolve,resolveWith_of_failure h,Except.map]
  | ok found =>
    simp only [resolve,resolveWith_of_settings h,Except.map,Reporter.reportAll_diagnostics,
      Reporter.empty,List.nil_append,Except.ok.injEq,Prod.mk.injEq]
    constructor
    · rintro ⟨rfl,rfl⟩
      exact ⟨rfl,rfl⟩
    · rintro ⟨rfl,rfl⟩
      exact ⟨rfl,rfl⟩

/-- Every reporter is told what resolving reports. -/
theorem resolveWith_of_ok {settings : Settings} {early : List Diagnostic}
    (h : resolve current options assemblyName g = .ok (settings,early)) (reporter : Reporter) :
    resolveWith current options assemblyName g reporter =
      (.ok settings,reporter.reportAll early) := by
  obtain ⟨hchoices,rfl⟩ := resolve_eq_ok_iff.mp h
  exact resolveWith_of_settings hchoices reporter

/-- Failing does not depend on the reporter. -/
theorem resolveWith_of_error {failure : Failure}
    (h : resolve current options assemblyName g = .error failure) (reporter : Reporter) :
    resolveWith current options assemblyName g reporter =
      (.error failure,reporter.reportAll ((conflicts options g.paths).map reportConflict)) := by
  refine resolveWith_of_failure ?_ reporter
  cases hfound : ofChoices current assemblyName g (choices options g.paths) with
  | error other =>
    rw [resolve,resolveWith_of_failure hfound] at h
    exact congrArg _ (Except.error.inj h)
  | ok settings =>
    rw [resolve,resolveWith_of_settings hfound] at h
    cases h

theorem files_ne_nil_of_ofChoices {choices : Choices} {settings : Settings}
    (h : ofChoices current assemblyName g choices = .ok settings) : g.files ≠ [] := by
  unfold ofChoices at h
  obtain ⟨projectDir,-,h⟩ := Except.bind_eq_ok_iff.mp h
  obtain ⟨defaultName,-,h⟩ := Except.bind_eq_ok_iff.mp h
  obtain ⟨defaultNamespace,-,h⟩ := Except.bind_eq_ok_iff.mp h
  split at h
  · cases h
  · assumption

/-- Settings that are found come with a report for each conflict and for each name not found. -/
theorem resolve_reports {settings : Settings} {early : List Diagnostic}
    (h : resolve current options assemblyName g = .ok (settings,early)) :
    ∃ first rest, g.files = first :: rest ∧
      early = (conflicts options g.paths).map reportConflict ++
        unresolved first.path settings.targetNamespace settings.resourceName := by
  obtain ⟨hchoices,rfl⟩ := resolve_eq_ok_iff.mp h
  obtain ⟨first,rest,hfiles⟩ := List.exists_cons_of_ne_nil (files_ne_nil_of_ofChoices hchoices)
  exact ⟨first,rest,hfiles,by rw [lacking,hfiles]⟩

end Resolving

theorem orAssembly_text {assemblyName : Option Label}
    (h : ∀ label ∈ assemblyName, ∃ t, label = .text t) (option : Option String) :
    ∃ t, orAssembly option assemblyName = .text t := by
  cases option with
  | some value => exact ⟨value,rfl⟩
  | none =>
    unfold orAssembly
    cases hf : assemblyName.filter (·.isSet) with
    | none => exact ⟨"",by simp⟩
    | some label =>
      obtain ⟨t,rfl⟩ := h label (Option.filter_eq_some_iff.mp hf).1
      exact ⟨t,by simp⟩

/-- A group with files finds its settings under every assembly name that is a text. -/
theorem resolve_isOk {assemblyName : Option Label}
    (h : ∀ label ∈ assemblyName, ∃ t, label = .text t) {g : ResourceGroup} (hg : g.files ≠ [])
    (current : String) (options : Options) :
    ∃ found, resolve current options assemblyName g = .ok found := by
  obtain ⟨projectDir,hproject⟩ := orAssembly_text h (choices options g.paths).projectDir
  obtain ⟨rootName,hroot⟩ := orAssembly_text h (choices options g.paths).rootNamespace
  have hfound : ∃ settings,
      ofChoices current assemblyName g (choices options g.paths) = .ok settings := by
    unfold ofChoices
    rw [hproject,hroot]
    cases hfiles : g.files with
    | nil => exact absurd hfiles hg
    | cons first rest => exact ⟨_,rfl⟩
  obtain ⟨settings,hsettings⟩ := hfound
  exact ⟨_,resolve_eq_ok_iff.mpr ⟨hsettings,rfl⟩⟩

end Settings
end TypedResources

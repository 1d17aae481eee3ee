import TypedResources.Proofs.Resolution

/-! Where the settings of a group come from: each option from the files that agree on it or from the
host, each default from the place of the group, each name from its option or else from its
default. -/
namespace TypedResources

namespace Lookup

variable {options : Options} {name : String} {globalName : Option String} {paths : List String}

/-- The value that files agree on is that of one of them. -/
theorem mem_of_fileValue {v : String} (h : fileValue options name paths = .ok (some v)) :
    ∃ p ∈ paths, options.file p name = some v := by
  rcases fileValue_cases options name paths with ⟨-,hf⟩ | ⟨w,hw,hf⟩ | ⟨other,-,hf⟩
  · simp [hf] at h
  · simp only [hf,Except.ok.injEq,Option.some.injEq] at h
    subst h
    obtain ⟨u,hu⟩ := List.exists_mem_of_ne_nil _ hw.1
    exact List.mem_filterMap.mp (hw.2 u hu ▸ hu)
  · simp [hf] at h

/-- A value that is found is not empty, and a file or the host has set it. -/
theorem find_eq_some {v : String} (h : (find options name globalName paths).1 = some v) :
    v ≠ "" ∧ ((∃ p ∈ paths, options.file p name = some v) ∨
      ∃ n ∈ globalName, options.global n = some v) := by
  unfold find at h
  cases hf : fileValue options name paths with
  | error other =>
    rw [hf] at h
    exact ((globalValue_eq_some_iff _ _ _).mp h).imp_right Or.inr
  | ok value =>
    rw [hf] at h
    rcases Option.or_eq_some_iff.mp h with hset | ⟨-,hglobal⟩
    · obtain ⟨rfl,hne⟩ := (isSet_eq_some_iff _ _).mp hset
      exact ⟨hne,Or.inl (mem_of_fileValue hf)⟩
    · exact ((globalValue_eq_some_iff _ _ _).mp hglobal).imp_right Or.inr

/-- An option without a global name has no value unless a file sets it. -/
theorem find_eq_none (h : ∀ p ∈ paths, ∀ v ∈ options.file p name, v = "") :
    (find options name none paths).1 = none := by
  rw [Option.eq_none_iff_forall_not_mem]
  intro v hv
  obtain ⟨hne,⟨p,hp,hfile⟩ | ⟨n,hn,-⟩⟩ := find_eq_some hv
  · exact hne (h p hp v hfile)
  · cases hn

end Lookup

namespace Settings

/-- What the settings of a group are made of. -/
structure Derives (current : String) (options : Options) (assemblyName : Option Label)
    (g : ResourceGroup) (s : Settings) : Prop where
  rootNamespaceOption : s.rootNamespaceOption =
    (Lookup.find options "RootNamespace" (some "RootNamespace") g.paths).1
  projectDirOption : s.projectDirOption =
    (Lookup.find options "ProjectDir" (some "ProjectDir") g.paths).1
  namespaceOption : s.namespaceOption =
    (Lookup.find options "Namespace" (some "DefaultResourcesNamespace") g.paths).1
  resourceNameOption : s.resourceNameOption = (Lookup.find options "ResourceName" none g.paths).1
  classNameOption : s.classNameOption = (Lookup.find options "ClassName" none g.paths).1
  rootNamespace : s.rootNamespace = orAssembly s.rootNamespaceOption assemblyName
  projectDir : orAssembly s.projectDirOption assemblyName = .text s.projectDir
  defaultNamespace : underRoot (fun root => Naming.namespace? current root s.projectDir g.key)
    s.rootNamespace = .ok s.defaultNamespace
  defaultResourceName : underRoot (fun root => Naming.resourceName? current root s.projectDir g.key)
    s.rootNamespace = .ok s.defaultResourceName
  targetNamespace : s.targetNamespace = s.namespaceOption.or s.defaultNamespace
  resourceName : s.resourceName = s.resourceNameOption.or s.defaultResourceName
  className : s.className = s.classNameOption.getD (defaultClassName g.key)

theorem asText_eq_ok_iff (label : Label) (text : String) :
    label.asText = .ok text ↔ label = .text text := by
  cases label <;> simp [Label.asText]

theorem derives_of_resolve {current : String} {options : Options} {assemblyName : Option Label}
    {g : ResourceGroup} {settings : Settings} {early : List Diagnostic}
    (h : resolve current options assemblyName g = .ok (settings,early)) :
    Derives current options assemblyName g settings := by
  obtain ⟨hchoices,-⟩ := resolve_eq_ok_iff.mp h
  unfold ofChoices at hchoices
  obtain ⟨projectDir,hproject,hchoices⟩ := Except.bind_eq_ok_iff.mp hchoices
  obtain ⟨defaultName,hname,hchoices⟩ := Except.bind_eq_ok_iff.mp hchoices
  obtain ⟨defaultNamespace,hnamespace,hchoices⟩ := Except.bind_eq_ok_iff.mp hchoices
  split at hchoices
  · cases hchoices
  · obtain rfl := Except.ok.inj hchoices
    exact ⟨rfl,rfl,rfl,rfl,rfl,rfl,(asText_eq_ok_iff _ _).mp hproject,hnamespace,hname,rfl,rfl,rfl⟩

/-- A default name is made under a root that is a text. -/
theorem underRoot_eq_some_iff (name : String → Option String) (root : Label) (n : String) :
    underRoot name root = .ok (some n) ↔ ∃ r, root = .text r ∧ name r = some n := by
  cases root with
  | text r => simp [underRoot]
  | other shown isSet =>
    simp only [underRoot]
    split <;> simp

end Settings
end TypedResources

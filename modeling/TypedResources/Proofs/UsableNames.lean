import TypedResources.Proofs.Account
import TypedResources.Proofs.Derivation

/-! Which names a group can be generated under. A name that is not found is reported once. A name that
is found is usable exactly when an option gives it or its root is not empty: a default name starts
with its root, and under the empty root it is empty or begins with a dot. -/
namespace TypedResources

namespace Settings

/-- A name that a namespace block can open with. -/
def IsUsable (name : String) : Prop := name ≠ "" ∧ name.toList.head? ≠ some '.'

instance (name : String) : Decidable (IsUsable name) :=
  inferInstanceAs (Decidable (name ≠ "" ∧ name.toList.head? ≠ some '.'))

/-- The texts that names are made of do not begin with a dot. -/
structure Undotted (options : Options) (assemblyName : Option Label) : Prop where
  file : ∀ name ∈ ["RootNamespace","Namespace","ResourceName"], ∀ path,
    ∀ v ∈ options.file path name, v.toList.head? ≠ some '.'
  global : ∀ name ∈ ["RootNamespace","DefaultResourcesNamespace"],
    ∀ v ∈ options.global name, v.toList.head? ≠ some '.'
  assembly : ∀ v, assemblyName = some (.text v) → v.toList.head? ≠ some '.'

/-- A name that is found satisfies a property and is not reported under the id; a name that is not
found is reported once. -/
def Reported (id : String) (reports : List Diagnostic) (name : Option String)
    (property : String → Prop) : Prop :=
  (name = none ∧ (reports.map (·.id)).count id = 1) ∨
    ∃ n, name = some n ∧ (reports.map (·.id)).count id = 0 ∧ property n

theorem isUsable_qualify {root : String} (h : root.toList.head? ≠ some '.')
    (tidy : List Char → List Char) (relative : List Char) :
    IsUsable (Naming.qualify root tidy relative) ↔ root ≠ "" := by
  unfold Naming.qualify
  split
  · exact ⟨And.left,fun hne => ⟨hne,h⟩⟩
  · -- what begins the root begins the name, and under the empty root that is the dot
    cases hroot : root.toList with
    | nil =>
      have hempty : root = "" := String.toList_eq_nil_iff.mp hroot
      simp [IsUsable,hempty]
    | cons c cs =>
      have hne : root ≠ "" := by
        rintro rfl
        simp at hroot
      rw [hroot,List.head?_cons] at h
      simpa [IsUsable,hne,hroot] using h

theorem isUsable_namespace {current root project key n : String}
    (h : root.toList.head? ≠ some '.')
    (hn : Naming.namespace? current root project key = some n) : IsUsable n ↔ root ≠ "" := by
  obtain ⟨relative,-,rfl⟩ := Option.map_eq_some_iff.mp hn
  exact isUsable_qualify h _ relative

theorem isUsable_resourceName {current root project key n : String}
    (h : root.toList.head? ≠ some '.')
    (hn : Naming.resourceName? current root project key = some n) : IsUsable n ↔ root ≠ "" := by
  obtain ⟨relative,-,rfl⟩ := Option.map_eq_some_iff.mp hn
  exact isUsable_qualify h _ relative

/-- A name from an option is usable; a default name is so exactly when its root is not empty. -/
theorem isUsable_or_iff {option fallback : Option String} {name : String → Option String}
    {root : Label} {n : String} (hoption : ∀ v ∈ option, IsUsable v)
    (hfallback : underRoot name root = .ok fallback)
    (hname : ∀ r n, root = .text r → name r = some n → (IsUsable n ↔ r ≠ ""))
    (hn : option.or fallback = some n) : IsUsable n ↔ option.isSome ∨ root ≠ .text "" := by
  cases option with
  | some v =>
    obtain rfl := Option.some.inj hn
    simpa using hoption v rfl
  | none =>
    rw [Option.none_or] at hn
    rw [hn] at hfallback
    obtain ⟨r,rfl,hr⟩ := (underRoot_eq_some_iff name root n).mp hfallback
    rw [hname r n rfl hr]
    simp

theorem orAssembly_eq_text {option : Option String} {assemblyName : Option Label} {r : String}
    (h : orAssembly option assemblyName = .text r) :
    option = some r ∨ assemblyName = some (.text r) ∨ r = "" := by
  cases option with
  | some value =>
    obtain rfl := Label.text.inj h
    exact Or.inl rfl
  | none =>
    unfold orAssembly at h
    cases hf : assemblyName.filter (·.isSet) with
    | none =>
      rw [hf] at h
      exact Or.inr (Or.inr (Label.text.inj h).symm)
    | some label =>
      rw [hf] at h
      obtain rfl : label = .text r := h
      exact Or.inr (Or.inl (Option.filter_eq_some_iff.mp hf).1)

/-- The root is empty exactly when neither an option nor an assembly name is set. -/
theorem orAssembly_eq_empty_iff {option : Option String} (h : ∀ v ∈ option, v ≠ "")
    (assemblyName : Option Label) :
    orAssembly option assemblyName = .text "" ↔
      option = none ∧ ∀ label ∈ assemblyName, label.isSet = false := by
  cases option with
  | some value => simpa [orAssembly] using h value rfl
  | none =>
    cases assemblyName with
    | none => simp [orAssembly]
    | some label =>
      cases label with
      | text v => by_cases hv : v = "" <;> simp [orAssembly,Option.filter,Label.isSet,hv]
      | other shown isSet => cases isSet <;> simp [orAssembly,Option.filter,Label.isSet]

/-- An option that is found is a usable name. -/
theorem isUsable_of_find {options : Options} {assemblyName : Option Label}
    (h : Undotted options assemblyName) {name : String} {globalName : Option String}
    {paths : List String} {v : String}
    (hname : name ∈ ["RootNamespace","Namespace","ResourceName"])
    (hglobal : ∀ n ∈ globalName, n ∈ ["RootNamespace","DefaultResourcesNamespace"])
    (hfind : (Lookup.find options name globalName paths).1 = some v) : IsUsable v := by
  obtain ⟨hne,⟨p,-,hfile⟩ | ⟨n,hn,hset⟩⟩ := Lookup.find_eq_some hfind
  · exact ⟨hne,h.file name hname p v hfile⟩
  · exact ⟨hne,h.global n (hglobal n hn) v hset⟩

section Resolved

variable {job : Job} {g : ResourceGroup} {settings : Settings} {early : List Diagnostic}

theorem count_reports
    (h : resolve job.current job.options job.assemblyName g = .ok (settings,early)) :
    (early.map (·.id)).count "RESXG002" = (if settings.targetNamespace = none then 1 else 0) ∧
      (early.map (·.id)).count "RESXG003" = if settings.resourceName = none then 1 else 0 := by
  obtain ⟨first,-,hearly⟩ := Generate.account_of_resolve h
  have hconflicts : ∀ id ≠ "RESXG004", ((conflicts job.options g.paths).map
      fun _ => "RESXG004").count id = 0 := by
    intro id hid
    rw [List.count_eq_zero]
    simp [hid]
  rw [hearly,Diagnostic.account_ids]
  simp only [List.count_append,hconflicts "RESXG002" (by decide),
    hconflicts "RESXG003" (by decide)]
  cases settings.targetNamespace <;> cases settings.resourceName <;> simp

theorem reported_of_count {id : String} {name : Option String} {property : String → Prop}
    (hcount : (early.map (·.id)).count id = if name = none then 1 else 0)
    (hproperty : ∀ n, name = some n → property n) : Reported id early name property := by
  cases name with
  | none => exact Or.inl ⟨rfl,by simpa using hcount⟩
  | some n => exact Or.inr ⟨n,rfl,by simpa using hcount,hproperty n rfl⟩

variable (hundotted : Undotted job.options job.assemblyName)
  (hderives : Derives job.current job.options job.assemblyName g settings)
include hundotted hderives

theorem root_undotted {r : String} (h : settings.rootNamespace = .text r) :
    r.toList.head? ≠ some '.' := by
  rw [hderives.rootNamespace] at h
  rcases orAssembly_eq_text h with hoption | hassembly | rfl
  · rw [hderives.rootNamespaceOption] at hoption
    exact (isUsable_of_find hundotted (by simp) (by simp) hoption).2
  · exact hundotted.assembly r hassembly
  · simp

theorem isUsable_targetNamespace {n : String} (hn : settings.targetNamespace = some n) :
    IsUsable n ↔ settings.namespaceOption.isSome ∨ settings.rootNamespace ≠ .text "" := by
  rw [hderives.targetNamespace] at hn
  refine isUsable_or_iff ?_ hderives.defaultNamespace ?_ hn
  · intro v hv
    rw [hderives.namespaceOption] at hv
    exact isUsable_of_find hundotted (by simp) (by simp) hv
  · intro r m hr
    exact isUsable_namespace (root_undotted hundotted hderives hr)

theorem isUsable_foundResourceName {n : String} (hn : settings.resourceName = some n) :
    IsUsable n ↔ settings.resourceNameOption.isSome ∨ settings.rootNamespace ≠ .text "" := by
  rw [hderives.resourceName] at hn
  refine isUsable_or_iff ?_ hderives.defaultResourceName ?_ hn
  · intro v hv
    rw [hderives.resourceNameOption] at hv
    exact isUsable_of_find hundotted (by simp) (by simp) hv
  · intro r m hr
    exact isUsable_resourceName (root_undotted hundotted hderives hr)

end Resolved

/-- What becomes of the names of a group: each is found or reported, and what is found is usable
unless it is a default under an empty root. The namespace that is found opens the block of the
generated class. -/
structure NamesFound (job : Job) (settings : Settings) (early : List Diagnostic) : Prop where
  targetNamespace : Reported "RESXG002" early settings.targetNamespace fun n =>
    IsUsable n ↔ settings.namespaceOption.isSome ∨ settings.rootNamespace ≠ .text ""
  resourceName : Reported "RESXG003" early settings.resourceName fun n =>
    IsUsable n ↔ settings.resourceNameOption.isSome ∨ settings.rootNamespace ≠ .text ""
  emptyRoot : settings.rootNamespace = .text "" ↔
    settings.rootNamespaceOption = none ∧ ∀ label ∈ job.assemblyName, label.isSet = false
  block : ∀ entries c, Generate.classFor job settings entries = .ok (some c) →
    c.lines = ["","#nullable enable"] ++
      AccessorClass.enclosed c.body settings.targetNamespace

/-- Under texts that do not begin with a dot, a group's names are found or reported, and those that
are found are usable exactly when an option gives them or the root is not empty. -/
theorem names_usable_unless_rootless {job : Job} {g : ResourceGroup} {settings : Settings}
    {early : List Diagnostic} (hundotted : Undotted job.options job.assemblyName)
    (h : resolve job.current job.options job.assemblyName g = .ok (settings,early)) :
    NamesFound job settings early := by
  have hderives := derives_of_resolve h
  obtain ⟨hnamespace,hname⟩ := count_reports h
  refine ⟨?_,?_,?_,?_⟩
  · exact reported_of_count hnamespace fun _ => isUsable_targetNamespace hundotted hderives
  · exact reported_of_count hname fun _ => isUsable_foundResourceName hundotted hderives
  · rw [hderives.rootNamespace]
    refine orAssembly_eq_empty_iff ?_ _
    intro v hv
    rw [hderives.rootNamespaceOption] at hv
    exact (Lookup.find_eq_some hv).1
  · intro entries c hc
    rw [AccessorClass.lines_eq,(Generate.scope_of_classFor hc).1]

def rootedJob : Job :=
  ⟨"/",⟨fun _ _ => none,fun name =>
    if name = "RootNamespace" then some "App" else if name = "ProjectDir" then some "./proj"
    else none⟩,none,true⟩

def greetingGroup : ResourceGroup := ⟨"/proj/ui/Greeting",[.ofText "/proj/ui/Greeting.resx" none]⟩

theorem greeting_names_usable : Undotted rootedJob.options rootedJob.assemblyName ∧
    ∃ settings early,
      resolve rootedJob.current rootedJob.options rootedJob.assemblyName greetingGroup =
        .ok (settings,early) ∧
      settings.targetNamespace = some "App.ui" ∧ NamesFound rootedJob settings early := by
  have hundotted : Undotted rootedJob.options rootedJob.assemblyName :=
    ⟨by simp [rootedJob],by simp [rootedJob],by simp [rootedJob]⟩
  have hfound : ∃ settings, resolve rootedJob.current rootedJob.options rootedJob.assemblyName
      greetingGroup = .ok (settings,[]) ∧ settings.targetNamespace = some "App.ui" :=
    ⟨_,rfl,by decide⟩
  obtain ⟨settings,h,hname⟩ := hfound
  exact ⟨hundotted,settings,[],h,hname,names_usable_unless_rootless hundotted h⟩

def bareJob : Job := ⟨"/proj",⟨fun _ _ => none,fun _ => none⟩,none,true⟩

theorem not_reported {id n : String} {name : Option String} (hname : name = some n)
    (hn : ¬ IsUsable n) : ¬ Reported id [] name IsUsable := by
  rintro (⟨hnone,-⟩ | ⟨m,hm,-,husable⟩)
  · rw [hname] at hnone
    cases hnone
  · rw [hname] at hm
    exact hn (Option.some.inj hm ▸ husable)

/-- Under the empty root the default names of a resource are found, but the namespace is empty in the
project directory and begins with a dot below it, as the resource name does in both places. -/
theorem rootless_names_not_usable : Undotted bareJob.options bareJob.assemblyName ∧
    ∀ place ∈ [("a","",".a"),("ui/a",".ui",".ui.a")],
      ∃ settings, resolve bareJob.current bareJob.options bareJob.assemblyName
          ⟨place.1,[.ofText (place.1 ++ ".resx") none]⟩ = .ok (settings,[]) ∧
        settings.targetNamespace = some place.2.1 ∧ settings.resourceName = some place.2.2 ∧
        ¬ Reported "RESXG002" [] settings.targetNamespace IsUsable ∧
        ¬ Reported "RESXG003" [] settings.resourceName IsUsable := by
  have hundotted : Undotted bareJob.options bareJob.assemblyName :=
    ⟨by simp [bareJob],by simp [bareJob],by simp [bareJob]⟩
  have hhere : ∃ settings, resolve bareJob.current bareJob.options bareJob.assemblyName
      ⟨"a",[.ofText "a.resx" none]⟩ = .ok (settings,[]) ∧
      settings.targetNamespace = some "" ∧ settings.resourceName = some ".a" :=
    ⟨_,rfl,by decide,by decide⟩
  have hbelow : ∃ settings, resolve bareJob.current bareJob.options bareJob.assemblyName
      ⟨"ui/a",[.ofText "ui/a.resx" none]⟩ = .ok (settings,[]) ∧
      settings.targetNamespace = some ".ui" ∧ settings.resourceName = some ".ui.a" :=
    ⟨_,rfl,by decide,by decide⟩
  refine ⟨hundotted,?_⟩
  intro place hplace
  simp only [List.mem_cons,List.not_mem_nil,or_false] at hplace
  rcases hplace with rfl | rfl
  · obtain ⟨settings,h,hnamespace,hname⟩ := hhere
    exact ⟨settings,h,hnamespace,hname,not_reported hnamespace (by decide),
      not_reported hname (by decide)⟩
  · obtain ⟨settings,h,hnamespace,hname⟩ := hbelow
    exact ⟨settings,h,hnamespace,hname,not_reported hnamespace (by decide),
      not_reported hname (by decide)⟩

end Settings
end TypedResources

import Mathlib.Data.List.Basic
import TypedResources.Resource.Group
import TypedResources.Settings.Lookup

/-! The value of an option is the one that its files agree on, and else the global one. Files that
hold different values are reported once, by the first that differs from the first value. Both go by
the set of the values alone, in whatever order the files come. -/
namespace TypedResources
namespace Lookup

def values (options : Options) (name : String) (paths : List String) : List String :=
  paths.filterMap fun path => options.file path name

/-- Some file holds a value, and all that hold one hold this one. -/
def AgreeOn (vs : List String) (v : String) : Prop := vs ≠ [] ∧ ∀ w ∈ vs, w = v

def Differ (vs : List String) : Prop := ∃ v ∈ vs, ∃ w ∈ vs, v ≠ w

/-- The first file that holds another value than the first of all values. -/
def DiffersFirst (options : Options) (name : String) (paths : List String) (path : String) : Prop :=
  ∃ before after first value, paths = before ++ path :: after ∧
    (values options name paths).head? = some first ∧
    (∀ w ∈ values options name before, w = first) ∧
    options.file path name = some value ∧ value ≠ first

/-- What is found for an option, by the values that the files hold. -/
structure FoundByValues (options : Options) (name : String) (globalName : Option String)
    (paths : List String) (found : Option String × List Diagnostic) : Prop where
  agreed : ∀ v, AgreeOn (values options name paths) v → v ≠ "" → found.1 = some v
  fallback : (∀ v, AgreeOn (values options name paths) v → v = "") →
    ∀ v, found.1 = some v ↔ v ≠ "" ∧ ∃ n ∈ globalName, options.global n = some v
  conflict : Differ (values options name paths) →
    ∃ path, DiffersFirst options name paths path ∧ found.2 = [.inconsistentOption name path]
  silent : ¬ Differ (values options name paths) → found.2 = []

/-- The same value is found, and a conflict is reported for both or for none. -/
def Alike (found other : Option String × List Diagnostic) : Prop :=
  found.1 = other.1 ∧ (found.2 = [] ↔ other.2 = [])

theorem not_differ_of_agreeOn {vs : List String} {v : String} (h : AgreeOn vs v) : ¬ Differ vs := by
  rintro ⟨u,hu,w,hw,hne⟩
  exact hne ((h.2 u hu).trans (h.2 w hw).symm)

theorem not_agreeOn_of_differ {vs : List String} (h : Differ vs) (v : String) : ¬ AgreeOn vs v :=
  fun hv => not_differ_of_agreeOn hv h

theorem AgreeOn.unique {vs : List String} {v w : String} (hv : AgreeOn vs v) (hw : AgreeOn vs w) :
    v = w := by
  obtain ⟨u,hu⟩ := List.exists_mem_of_ne_nil vs hv.1
  exact (hv.2 u hu).symm.trans (hw.2 u hu)

/-- Agreement and difference are seen from the set of the values. -/
theorem agreeOn_congr {vs ws : List String} (h : ∀ v, v ∈ vs ↔ v ∈ ws) (v : String) :
    AgreeOn vs v ↔ AgreeOn ws v := by
  simp only [AgreeOn,ne_eq,List.eq_nil_iff_forall_not_mem,h]

theorem differ_congr {vs ws : List String} (h : ∀ v, v ∈ vs ↔ v ∈ ws) : Differ vs ↔ Differ ws := by
  simp only [Differ,h]

theorem conflict?_eq_none_iff (options : Options) (name value : String) (paths : List String) :
    conflict? options name value paths = none ↔
      ∀ p ∈ paths, ∀ v ∈ options.file p name, v = value := by
  simp [conflict?,List.find?_eq_none,Option.any_eq_false]

theorem conflict?_eq_some {options : Options} {name value path : String} {paths : List String}
    (h : conflict? options name value paths = some path) :
    path ∈ paths ∧ ∃ v ∈ options.file path name, v ≠ value := by
  refine ⟨List.mem_of_find?_eq_some h,?_⟩
  obtain ⟨v,hv,hne⟩ := (Option.any_eq_true _ _).mp
    (@List.find?_some _ (fun p => (options.file p name).any (· ≠ value)) _ _ h)
  exact ⟨v,hv,of_decide_eq_true hne⟩

section Files

variable {options : Options} {name : String}

theorem values_cons_none {p : String} (h : options.file p name = none) (rest : List String) :
    values options name (p :: rest) = values options name rest := List.filterMap_cons_none h

theorem values_cons_some {p value : String} (h : options.file p name = some value)
    (rest : List String) :
    values options name (p :: rest) = value :: values options name rest :=
  List.filterMap_cons_some h

theorem DiffersFirst.behind_unset {p path : String} (h : options.file p name = none)
    {rest : List String} (hfirst : DiffersFirst options name rest path) :
    DiffersFirst options name (p :: rest) path := by
  obtain ⟨before,after,first,value,rfl,hhead,hbefore,hvalue,hne⟩ := hfirst
  refine ⟨p :: before,after,first,value,rfl,?_,?_,hvalue,hne⟩
  · rwa [values_cons_none h]
  · rwa [values_cons_none h]

theorem differ_of_differsFirst {paths : List String} {path : String}
    (h : DiffersFirst options name paths path) : Differ (values options name paths) := by
  obtain ⟨before,after,first,value,hsplit,hhead,-,hvalue,hne⟩ := h
  refine ⟨value,?_,first,List.mem_of_mem_head? hhead,hne⟩
  exact List.mem_filterMap.mpr ⟨path,by simp [hsplit],hvalue⟩

/-- What the files answer together: nothing, a value they agree on, or the first that differs. -/
theorem fileValue_cases (options : Options) (name : String) (paths : List String) :
    (values options name paths = [] ∧ fileValue options name paths = .ok none) ∨
    (∃ v, AgreeOn (values options name paths) v ∧ fileValue options name paths = .ok (some v)) ∨
    ∃ path, DiffersFirst options name paths path ∧ fileValue options name paths = .error path := by
  induction paths with
  | nil => exact Or.inl ⟨rfl,rfl⟩
  | cons p rest ih =>
    unfold fileValue
    cases hp : options.file p name with
    | none =>
      rw [values_cons_none hp]
      exact ih.imp_right (Or.imp_right fun ⟨path,hpath,hf⟩ => ⟨path,hpath.behind_unset hp,hf⟩)
    | some value =>
      rw [values_cons_some hp]
      cases hc : conflict? options name value rest with
      | none =>
        have hagree := (conflict?_eq_none_iff options name value rest).mp hc
        refine Or.inr (Or.inl ⟨value,⟨by simp,?_⟩,by simp only [hc]⟩)
        refine List.forall_mem_cons.mpr ⟨rfl,fun w hw => ?_⟩
        obtain ⟨q,hq,hw⟩ := List.mem_filterMap.mp hw
        exact hagree q hq w hw
      | some other =>
        obtain ⟨-,v,hv,hne⟩ := conflict?_eq_some hc
        obtain ⟨-,before,after,rfl,hbefore⟩ := List.find?_eq_some_iff_append.mp hc
        refine Or.inr (Or.inr ⟨other,⟨p :: before,after,value,v,rfl,?_,?_,hv,hne⟩,by simp only [hc]⟩)
        · rw [values_cons_some hp,List.head?_cons]
        · rw [values_cons_some hp]
          refine List.forall_mem_cons.mpr ⟨rfl,fun w hw => ?_⟩
          obtain ⟨q,hq,hw⟩ := List.mem_filterMap.mp hw
          simpa [hw] using hbefore q hq

end Files

theorem isSet_eq_some_iff (value : Option String) (v : String) :
    isSet value = some v ↔ value = some v ∧ v ≠ "" := by
  simp [isSet,Option.filter_eq_some_iff]

theorem globalValue_eq_some_iff (options : Options) (globalName : Option String) (v : String) :
    globalValue options globalName = some v ↔
      v ≠ "" ∧ ∃ n ∈ globalName, options.global n = some v := by
  rw [globalValue,isSet_eq_some_iff,Option.bind_eq_some_iff,and_comm]
  rfl

theorem foundByValues_find (options : Options) (name : String) (globalName : Option String)
    (paths : List String) :
    FoundByValues options name globalName paths (find options name globalName paths) := by
  unfold find
  rcases fileValue_cases options name paths with ⟨hnone,hf⟩ | ⟨v,hv,hf⟩ | ⟨path,hpath,hf⟩
  · rw [hf]
    refine ⟨fun v hv => absurd hnone hv.1,fun _ v => ?_,?_,fun _ => rfl⟩
    · exact globalValue_eq_some_iff options globalName v
    · rintro ⟨v,hv,-⟩
      rw [hnone] at hv
      cases hv
  · rw [hf]
    refine ⟨fun w hw hne => ?_,fun hempty w => ?_,?_,fun _ => rfl⟩
    · obtain rfl := hv.unique hw
      simp [isSet,Option.filter,hne]
    · obtain rfl := hempty v hv
      exact globalValue_eq_some_iff options globalName w
    · exact fun hdiffer => absurd hv (not_agreeOn_of_differ hdiffer v)
  · rw [hf]
    have hdiffer := differ_of_differsFirst hpath
    refine ⟨fun v hv => absurd hv (not_agreeOn_of_differ hdiffer v),fun _ v => ?_,?_,?_⟩
    · exact globalValue_eq_some_iff options globalName v
    · exact fun _ => ⟨path,hpath,rfl⟩
    · exact fun hsame => absurd hdiffer hsame

/-- What is found twice by the same set of values is alike. -/
theorem FoundByValues.alike {options : Options} {name : String} {globalName : Option String}
    {paths paths' : List String} {found found' : Option String × List Diagnostic}
    (h : FoundByValues options name globalName paths found)
    (h' : FoundByValues options name globalName paths' found')
    (hsame : ∀ v, v ∈ values options name paths ↔ v ∈ values options name paths') :
    Alike found found' := by
  have hagree := agreeOn_congr hsame
  have hdiffer := differ_congr hsame
  constructor
  · by_cases hset : ∃ v, AgreeOn (values options name paths) v ∧ v ≠ ""
    · obtain ⟨v,hv,hne⟩ := hset
      rw [h.agreed v hv hne,h'.agreed v ((hagree v).mp hv) hne]
    · have hempty : ∀ v, AgreeOn (values options name paths) v → v = "" := by
        intro v hv
        by_contra hne
        exact hset ⟨v,hv,hne⟩
      refine Option.ext fun v => ?_
      exact (h.fallback hempty v).trans
        (h'.fallback (fun w hw => hempty w ((hagree w).mpr hw)) v).symm
  · by_cases hconflict : Differ (values options name paths)
    · obtain ⟨path,-,hreport⟩ := h.conflict hconflict
      obtain ⟨path',-,hreport'⟩ := h'.conflict (hdiffer.mp hconflict)
      simp [hreport,hreport']
    · rw [h.silent hconflict,h'.silent (mt hdiffer.mpr hconflict)]

/-- Files without the option, and the order of the files, leave the set of values as it is. -/
theorem mem_values_of_perm {options : Options} {name : String} {g g' : ResourceGroup}
    {added : List ResourceFile} (hfiles : g'.files.Perm (g.files ++ added))
    (hadded : ∀ f ∈ added, options.file f.path name = none) (v : String) :
    v ∈ values options name g'.paths ↔ v ∈ values options name g.paths := by
  have hunset : values options name (added.map (·.path)) = [] := by
    refine List.filterMap_eq_nil_iff.mpr fun path hpath => ?_
    obtain ⟨f,hf,rfl⟩ := List.mem_map.mp hpath
    exact hadded f hf
  have hvalues : (values options name g'.paths).Perm (values options name g.paths) := by
    have hperm := (hfiles.map (·.path)).filterMap fun path => options.file path name
    rw [List.map_append,List.filterMap_append] at hperm
    change (values options name g'.paths).Perm
      (values options name g.paths ++ values options name (added.map (·.path))) at hperm
    rwa [hunset,List.append_nil] at hperm
  exact hvalues.mem_iff

/-- An option is found by the values that the files of a group hold. Groups with the same set of values
find the same value and report alike, and so do groups that differ in the order of their files and in
files without the option. -/
theorem option_found_by_values (options : Options) (name : String) (globalName : Option String)
    (g : ResourceGroup) :
    FoundByValues options name globalName g.paths (find options name globalName g.paths) ∧
    (∀ g' : ResourceGroup,
      (∀ v, v ∈ values options name g'.paths ↔ v ∈ values options name g.paths) →
        Alike (find options name globalName g'.paths) (find options name globalName g.paths)) ∧
    ∀ (g' : ResourceGroup) (added : List ResourceFile), g'.files.Perm (g.files ++ added) →
      (∀ f ∈ added, options.file f.path name = none) →
        Alike (find options name globalName g'.paths) (find options name globalName g.paths) := by
  have hfound := foundByValues_find options name globalName
  refine ⟨hfound g.paths,fun g' hsame => ?_,fun g' added hfiles hadded => ?_⟩
  · exact (hfound g'.paths).alike (hfound g.paths) hsame
  · exact (hfound g'.paths).alike (hfound g.paths) (mem_values_of_perm hfiles hadded)

/-- The empty text is a value that differs from others. -/
example : find ⟨fun path _ => if path = "a" then some "" else some "x",fun _ => some "y"⟩ "ClassName"
    (some "ClassName") ["a","b"] = (some "y",[.inconsistentOption "ClassName" "b"]) := by decide

end Lookup
end TypedResources

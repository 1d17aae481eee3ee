import TypedResources.Proofs.Derivation
import TypedResources.Proofs.Naming
import TypedResources.Proofs.Splitting
import TypedResources.Proofs.UsableNames

/-! Which groups share a class. A default class name is made from the base name of the key up to its
last dot, so groups share it whose base names agree up to there, identifier for identifier. A group
declares its class and its catalog; they meet those of another group in one namespace when the class
names agree or one of them names the catalog of the other. -/
namespace TypedResources

namespace Path

/-- A base name and the part of it before its last dot, if more than dots comes before that dot. -/
inductive CutAtLastDot : List Char → List Char → Prop
  | whole {dots rest : List Char} (hdots : ∀ c ∈ dots, c = '.') (hrest : '.' ∉ rest) :
    CutAtLastDot (dots ++ rest) (dots ++ rest)
  | cut {front extension : List Char} (hfront : ∃ c ∈ front, c ≠ '.') (hext : '.' ∉ extension) :
    CutAtLastDot (front ++ '.' :: extension) front

theorem stem_of_dots {dots rest : List Char} (hdots : ∀ c ∈ dots, c = '.') (hrest : '.' ∉ rest) :
    stem (dots ++ rest) = dots ++ rest := by
  cases hlast : dots.getLast? with
  | none =>
    rw [List.getLast?_eq_none_iff] at hlast
    rw [hlast,List.nil_append,stem,(splitLastDot_eq_none_iff rest).mpr hrest]
  | some d =>
    obtain ⟨before,rfl⟩ := List.getLast?_eq_some_iff.mp hlast
    obtain rfl : d = '.' := hdots d (by simp)
    have hbefore : before.all (· == '.') = true := by
      simpa using fun c hc => hdots c (by simp [hc])
    rw [List.append_assoc,List.singleton_append,stem,splitLastDot_append hrest]
    simp [hbefore]

theorem stem_append {front extension : List Char} (hfront : ∃ c ∈ front, c ≠ '.')
    (hext : '.' ∉ extension) : stem (front ++ '.' :: extension) = front := by
  rw [stem,splitLastDot_append hext]
  simpa using hfront

theorem cutAtLastDot_stem (base : List Char) : CutAtLastDot base (stem base) := by
  cases hsplit : splitLastDot base with
  | none =>
    have hbase := (splitLastDot_eq_none_iff base).mp hsplit
    have hwhole : CutAtLastDot ([] ++ base) ([] ++ base) := CutAtLastDot.whole (by simp) hbase
    simpa [stem,hsplit] using hwhole
  | some parts =>
    obtain ⟨before,after⟩ := parts
    have hafter := not_mem_of_splitLastDot hsplit
    have hbase := eq_of_splitLastDot hsplit
    by_cases hdots : ∀ c ∈ before, c = '.'
    · have hall : ∀ c ∈ before ++ ['.'], c = '.' := by simpa [or_imp,forall_and] using hdots
      have hpieces : base = (before ++ ['.']) ++ after := by simpa using hbase
      rw [hpieces,stem_of_dots hall hafter]
      exact CutAtLastDot.whole hall hafter
    · have hfront : ∃ c ∈ before, c ≠ '.' := by simpa using hdots
      rw [hbase,stem_append hfront hafter]
      exact CutAtLastDot.cut hfront hafter

theorem cutAtLastDot_iff (base front : List Char) : CutAtLastDot base front ↔ stem base = front := by
  constructor
  · intro h
    cases h with
    | whole hdots hrest => exact stem_of_dots hdots hrest
    | cut hfront hext => exact stem_append hfront hext
  · rintro rfl
    exact cutAtLastDot_stem base

end Path

namespace AccessorClass

def declaration : String := "    internal partial class "

def declared? (line : String) : Option String :=
  if declaration.toList.isPrefixOf line.toList then
    some (String.ofList (line.toList.drop declaration.length))
  else none

def declared (lines : List String) : List String := lines.filterMap declared?

theorem declared_append (xs ys : List String) :
    declared (xs ++ ys) = declared xs ++ declared ys := List.filterMap_append

theorem declared?_declaration (name : String) : declared? (declaration ++ name) = some name := by
  have hprefix : declaration.toList.isPrefixOf (declaration ++ name).toList = true := by
    rw [String.toList_append,List.isPrefixOf_iff_prefix]
    exact List.prefix_append _ _
  rw [declared?,if_pos hprefix,String.toList_append,← String.length_toList,List.drop_left,
    String.ofList_toList]

/-- The line is further to the right than a declaration. -/
def IsDeep (line : String) : Prop := "        ".toList <+: line.toList

theorem isDeep_ofList (cs : List Char) :
    IsDeep (String.ofList (' ' :: ' ' :: ' ' :: ' ' :: ' ' :: ' ' :: ' ' :: ' ' :: cs)) := by
  simp [IsDeep]

/-- A line that begins deep declares nothing. -/
theorem declared?_append {lead : String} (h : IsDeep lead) (rest : String) :
    declared? (lead ++ rest) = none := by
  obtain ⟨more,hmore⟩ := h
  have hchars : lead.toList = "        ".toList ++ more := hmore.symm
  simp [declared?,declaration,hchars]

theorem declared_nil : declared [] = [] := rfl

theorem declared_cons {line : String} (h : declared? line = none) (rest : List String) :
    declared (line :: rest) = declared rest := by
  rw [declared,List.filterMap_cons_none h]
  rfl

theorem declared_blank (rest : List String) : declared ("" :: rest) = declared rest :=
  declared_cons (by decide) rest

theorem declared_deep_append {lead : String} (h : IsDeep lead) (text : String)
    (rest : List String) : declared ((lead ++ text) :: rest) = declared rest :=
  declared_cons (declared?_append h text) rest

theorem declared_deep {line : String} (h : IsDeep line) (rest : List String) :
    declared (line :: rest) = declared rest := by
  have happend := declared_deep_append h "" rest
  rwa [String.append_empty] at happend

section Plumbing

open Plumbing

variable (s : Style)

theorem declared_declare (signature : String) : declared (declare s signature) = [] := by
  simp (disch := exact isDeep_ofList _) only [declare,String.append_assoc,declared_deep_append,
    declared_nil]

theorem declared_declareGuarded (signature : String) :
    declared (declareGuarded s signature) = [] := by
  rw [declareGuarded,declared_append,declared_declare,List.append_nil]
  split
  · exact declared_deep_append (isDeep_ofList _) _ []
  · rfl

theorem declared_calls (call : String) : declared (calls call) = [] := by
  simp (disch := exact isDeep_ofList _) only [calls,String.append_assoc,declared_deep_append,
    declared_blank,declared_nil]

theorem declared_block (lines : List String) : declared (Plumbing.body lines) = [] := by
  have hlines : declared (lines.map fun l => if l = "" then "" else "            " ++ l) = [] := by
    rw [declared,List.filterMap_eq_nil_iff]
    intro line hline
    obtain ⟨l,-,rfl⟩ := List.mem_map.mp hline
    split
    · decide
    · exact declared?_append (isDeep_ofList _) l
  rw [Plumbing.body,declared_append,declared_append,hlines]
  simp (disch := exact isDeep_ofList _) only [declared_deep,declared_blank,declared_nil,
    List.append_nil]

theorem declared_constructorLines : declared (constructorLines s) = [] := by
  simp (disch := exact isDeep_ofList _) only [constructorLines,String.append_assoc,declared_blank,
    declared_deep,declared_deep_append,declared_nil]

theorem declared_plumbing : declared (Plumbing.lines s) = [] := by
  have hconstructors : declared (if s.isInstance then constructorLines s else []) = [] := by
    split
    · exact declared_constructorLines s
    · rfl
  simp (disch := exact isDeep_ofList _) only [Plumbing.lines,managerLines,cultureLines,objectLines,
    streamLines,stringLines,defaultedLines,declared_append,declared_declare,
    declared_declareGuarded,declared_calls,declared_block,hconstructors,declared_blank,
    declared_deep,declared_deep_append,declared_nil,List.append_nil]

end Plumbing

/-- An accessor declares no class of its own. -/
theorem declared_accessor (shared : String) (a : Accessor) : declared (a.lines shared) = [] := by
  cases a with
  | text name summary arity =>
    cases arity <;>
      simp (disch := exact isDeep_ofList _) only [Accessor.lines,Accessor.formatLines,
        declared_append,String.append_assoc,declared_deep_append,declared_blank,declared_nil,
        List.append_nil]
  | object name typeName =>
    simp (disch := exact isDeep_ofList _) only [Accessor.lines,String.append_assoc,
      declared_deep_append,declared_blank,declared_nil]

theorem declared_accessors (shared : String) (accessors : List Accessor) :
    declared (accessors.flatMap (Accessor.lines shared)) = [] := by
  induction accessors with
  | nil => rfl
  | cons a rest ih => rw [List.flatMap_cons,declared_append,declared_accessor,ih,List.nil_append]

theorem declared_constants (names : List String) : declared (names.map constantLine) = [] := by
  rw [declared,List.filterMap_eq_nil_iff]
  intro line hline
  obtain ⟨name,-,rfl⟩ := List.mem_map.mp hline
  unfold constantLine
  simp only [String.append_assoc]
  exact declared?_append (isDeep_ofList _) _

theorem declared_declaration (name : String) (rest : List String) :
    declared (("    internal partial class " ++ name) :: rest) = name :: declared rest :=
  List.filterMap_cons_some (declared?_declaration name)

/-- The block of a namespace declares nothing more than what it holds. -/
theorem declared_enclosed (held : List String) (scope : Option String) :
    declared (enclosed held scope) = declared held := by
  cases scope with
  | none => rfl
  | some scope =>
    have hspace : declared? ("namespace " ++ scope) = none := by simp [declared?,declaration]
    have hopen : declared? "\x7b" = none := by decide
    have hclose : declared? "\x7d" = none := by decide
    rw [enclosed,declared_append,declared_append,declared_cons hspace,declared_cons hopen,
      declared_cons hclose,declared_nil,List.nil_append,List.append_nil]

theorem declared_body (c : AccessorClass) :
    declared (body c) = [c.style.className,c.style.className ++ "Names"] := by
  have hopen : declared? "    \x7b" = none := by decide
  have hclose : declared? "    \x7d" = none := by decide
  simp (disch := exact isDeep_ofList _) only [body,middle,declared_append,declared_plumbing,
    declared_accessors,declared_constants,declared_declaration,declared_cons hopen,
    declared_cons hclose,declared_blank,String.append_assoc,declared_deep_append,declared_nil,
    List.append_nil,List.cons_append,List.nil_append]

/-- A generated class declares itself and then its catalog. -/
theorem declared_lines (c : AccessorClass) :
    declared c.lines = [c.style.className,c.style.className ++ "Names"] := by
  have hnullable : declared ["","#nullable enable"] = [] := by decide
  rw [lines_eq,declared_append,declared_enclosed,declared_body,hnullable,List.nil_append]

/-- The classes that the lines of a class declare, each in its namespace. -/
def qualified (c : AccessorClass) : List (Option String × String) :=
  (declared c.lines).map (c.scope,·)

/-- Neither name is the other one or that of its catalog. -/
def Apart (m n : String) : Prop := m ≠ n ∧ m ≠ n ++ "Names" ∧ n ≠ m ++ "Names"

theorem mem_qualified_iff (c : AccessorClass) (scope : Option String) (name : String) :
    (scope,name) ∈ c.qualified ↔
      scope = c.scope ∧ (name = c.style.className ∨ name = c.style.className ++ "Names") := by
  simp only [qualified,declared_lines,List.map_cons,List.map_nil,List.mem_cons,Prod.mk.injEq,
    List.not_mem_nil,or_false,and_or_left]

/-- Two classes declare nothing in common exactly when their namespaces differ or their names are
apart. -/
theorem disjoint_qualified_iff (c d : AccessorClass) :
    c.qualified.Disjoint d.qualified ↔
      c.scope ≠ d.scope ∨ Apart c.style.className d.style.className := by
  constructor
  · intro hdisjoint
    by_cases hscope : c.scope = d.scope
    · have hshared (name : String)
          (hc : name = c.style.className ∨ name = c.style.className ++ "Names") :
          ¬ (name = d.style.className ∨ name = d.style.className ++ "Names") := fun hd =>
        hdisjoint ((mem_qualified_iff c _ name).mpr ⟨rfl,hc⟩)
          ((mem_qualified_iff d _ name).mpr ⟨hscope,hd⟩)
      have hclass := not_or.mp (hshared _ (Or.inl rfl))
      have hcatalog := not_or.mp (hshared _ (Or.inr rfl))
      exact Or.inr ⟨hclass.1,hclass.2,fun he => hcatalog.1 he.symm⟩
    · exact Or.inl hscope
  · rintro happart ⟨scope,name⟩ hc hd
    obtain ⟨hcscope,hcname⟩ := (mem_qualified_iff c scope name).mp hc
    obtain ⟨hdscope,hdname⟩ := (mem_qualified_iff d scope name).mp hd
    rcases happart with hscope | ⟨hne,hleft,hright⟩
    · exact hscope (hcscope.symm.trans hdscope)
    · rcases hcname with hcname | hcname <;> rcases hdname with hdname | hdname
      · exact hne (hcname.symm.trans hdname)
      · exact hleft (hcname.symm.trans hdname)
      · exact hright (hdname.symm.trans hcname)
      · exact hne (by simpa using hcname.symm.trans hdname)

end AccessorClass

namespace Generate

open AccessorClass Settings

/-- None of the files names the class. -/
def Unnamed (options : Options) (paths : List String) : Prop :=
  ∀ p ∈ paths, ∀ v ∈ options.file p "ClassName", v = ""

theorem className_of_unnamed {job : Job} {g : ResourceGroup} {s : Settings}
    (hunnamed : Unnamed job.options g.paths)
    (hderives : Derives job.current job.options job.assemblyName g s) :
    s.className = String.ofList (Identifier.sanitizeChars (Path.stem g.lastComponent)) := by
  have hoption : s.classNameOption = none :=
    hderives.classNameOption.trans (Lookup.find_eq_none hunnamed)
  rw [hderives.className,hoption]
  rfl

/-- How the classes of two groups compare: the names by the parts of the base names before the last
dot, the base names as wholes if there is no such dot, and the classes by names and namespaces. -/
structure ComparedByFront (job : Job) (g h : ResourceGroup) (s t : Settings) : Prop where
  fronts : s.className = t.className ↔ ∃ a b, Path.CutAtLastDot g.lastComponent a ∧
    Path.CutAtLastDot h.lastComponent b ∧ Identifier.sanitizeChars a = Identifier.sanitizeChars b
  wholes : Path.CutAtLastDot g.lastComponent g.lastComponent →
    Path.CutAtLastDot h.lastComponent h.lastComponent →
      (s.className = t.className ↔
        Identifier.sanitizeChars g.lastComponent = Identifier.sanitizeChars h.lastComponent)
  classes : ∀ found found' c d, classFor job s found = .ok (some c) →
    classFor job t found' = .ok (some d) →
      (c.qualified.Disjoint d.qualified ↔
        s.targetNamespace ≠ t.targetNamespace ∨ Apart s.className t.className)

/-- Groups whose files name no class have one class name exactly when their base names agree,
identifier for identifier, up to the last dot; there is no other limit to where their keys lie. -/
theorem classes_compared_by_front {job : Job} {g h : ResourceGroup} {s t : Settings}
    {early late : List Diagnostic} (hg : Unnamed job.options g.paths)
    (hh : Unnamed job.options h.paths)
    (hs : resolve job.current job.options job.assemblyName g = .ok (s,early))
    (ht : resolve job.current job.options job.assemblyName h = .ok (t,late)) :
    ComparedByFront job g h s t := by
  have hsame : s.className = t.className ↔
      Identifier.sanitizeChars (Path.stem g.lastComponent) =
        Identifier.sanitizeChars (Path.stem h.lastComponent) := by
    rw [className_of_unnamed hg (derives_of_resolve hs),
      className_of_unnamed hh (derives_of_resolve ht),String.ofList_inj]
  refine ⟨?_,?_,?_⟩
  · simp only [hsame,Path.cutAtLastDot_iff,exists_eq_left',exists_and_left]
  · intro hgwhole hhwhole
    rw [hsame,(Path.cutAtLastDot_iff _ _).mp hgwhole,(Path.cutAtLastDot_iff _ _).mp hhwhole]
  · intro found found' c d hc hd
    obtain ⟨hcscope,hcname⟩ := scope_of_classFor hc
    obtain ⟨hdscope,hdname⟩ := scope_of_classFor hd
    rw [disjoint_qualified_iff,hcscope,hdscope,hcname,hdname]

def errorsFile : ResourceFile := .ofText "/proj/Errors.resx" none

def messagesFile : ResourceFile := .ofText "/proj/Errors.Messages.resx" none

def errorsGroup : ResourceGroup := ⟨"/proj/Errors",[errorsFile]⟩

def messagesGroup : ResourceGroup := ⟨"/proj/Errors.Messages",[messagesFile]⟩

theorem ofAll_siblings :
    ResourceGroup.ofAll [errorsFile,messagesFile] = [errorsGroup,messagesGroup] := by
  have hkeyed : ResourceGroup.keyed [errorsFile,messagesFile] =
      [("/proj/errors",errorsFile),("/proj/errors.messages",messagesFile)] := rfl
  have herrors : Key.ofPath errorsFile.path = "/proj/Errors" := by decide
  have hmessages : Key.ofPath messagesFile.path = "/proj/Errors.Messages" := by decide
  rw [ResourceGroup.ofAll,hkeyed]
  simp [ResourceGroup.ofKeyed,ResourceGroup.membersOf,ResourceGroup.ofFiles?,
    ResourceGroup.sortFiles,List.eraseDups_cons,List.mergeSort,List.MergeSort.Internal.splitInTwo,
    herrors,hmessages,errorsGroup,messagesGroup]

/-- The name of the second file ends in a segment that its class name does not show. -/
theorem resolve_siblings : ∃ s t,
    resolve rootedJob.current rootedJob.options rootedJob.assemblyName errorsGroup = .ok (s,[]) ∧
    resolve rootedJob.current rootedJob.options rootedJob.assemblyName messagesGroup =
      .ok (t,[]) ∧
    (s.targetNamespace = some "App" ∧ s.resourceName = some "App.Errors" ∧
      s.className = "Errors") ∧
    (t.targetNamespace = some "App" ∧ t.resourceName = some "App.Errors.Messages" ∧
      t.className = "Errors") :=
  ⟨_,_,rfl,rfl,by decide,by decide⟩

theorem unnamed_rootedJob (paths : List String) : Unnamed rootedJob.options paths := by
  simp [Unnamed,rootedJob]

theorem siblings_compared_by_front : Unnamed rootedJob.options errorsGroup.paths ∧
    Unnamed rootedJob.options messagesGroup.paths ∧
    ∃ s t early late,
      resolve rootedJob.current rootedJob.options rootedJob.assemblyName errorsGroup =
        .ok (s,early) ∧
      resolve rootedJob.current rootedJob.options rootedJob.assemblyName messagesGroup =
        .ok (t,late) ∧
      ComparedByFront rootedJob errorsGroup messagesGroup s t := by
  obtain ⟨s,t,hs,ht,-⟩ := resolve_siblings
  exact ⟨unnamed_rootedJob _,unnamed_rootedJob _,s,t,[],[],hs,ht,
    classes_compared_by_front (unnamed_rootedJob _) (unnamed_rootedJob _) hs ht⟩

/-- There is a class as soon as there is a name to load by, be it without entries. -/
theorem exists_classFor (job : Job) {s : Settings} {name : String}
    (hname : s.resourceName = some name) : ∃ c, classFor job s (some []) = .ok (some c) := by
  have hmade (style : Plumbing.Style) :
      ofEntries s.targetNamespace style [] = .ok ⟨s.targetNamespace,style,[],[]⟩ := by
    simp only [ofEntries,sortByName,named,List.filterMap_nil,List.mergeSort_nil,List.mapM_nil]
    rfl
  unfold classFor
  rw [hname]
  simp only [hmade]
  exact ⟨_,rfl⟩

/-- In a run over two files of one directory, with no class or namespace named, the base names of the
groups become different identifiers, and yet both groups declare one class in one namespace. -/
theorem siblings_share_class :
    ResourceGroup.ofAll [errorsFile,messagesFile] = [errorsGroup,messagesGroup] ∧
    (∀ path, rootedJob.options.file path "ClassName" = none ∧
      rootedJob.options.file path "Namespace" = none) ∧
    rootedJob.options.global "DefaultResourcesNamespace" = none ∧
    Path.lead errorsGroup.key.toList = Path.lead messagesGroup.key.toList ∧
    Identifier.sanitizeChars errorsGroup.lastComponent ≠
      Identifier.sanitizeChars messagesGroup.lastComponent ∧
    ∃ s t,
      resolve rootedJob.current rootedJob.options rootedJob.assemblyName errorsGroup =
        .ok (s,[]) ∧
      resolve rootedJob.current rootedJob.options rootedJob.assemblyName messagesGroup =
        .ok (t,[]) ∧
      s.className = t.className ∧
      ∃ c d, classFor rootedJob s (some []) = .ok (some c) ∧
        classFor rootedJob t (some []) = .ok (some d) ∧ ¬ c.qualified.Disjoint d.qualified := by
  refine ⟨ofAll_siblings,by simp [rootedJob],by simp [rootedJob],by decide,by decide,?_⟩
  obtain ⟨s,t,hs,ht,⟨hsspace,hsname,hsclass⟩,⟨htspace,htname,htclass⟩⟩ := resolve_siblings
  obtain ⟨c,hc⟩ := exists_classFor rootedJob hsname
  obtain ⟨d,hd⟩ := exists_classFor rootedJob htname
  obtain ⟨hcscope,hcname⟩ := scope_of_classFor hc
  obtain ⟨hdscope,hdname⟩ := scope_of_classFor hd
  refine ⟨s,t,hs,ht,hsclass.trans htclass.symm,c,d,hc,hd,?_⟩
  rw [disjoint_qualified_iff,hcscope,hdscope,hcname,hdname,hsspace,htspace,hsclass,htclass]
  simp [Apart]

end Generate

end TypedResources

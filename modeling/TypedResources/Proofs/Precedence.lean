import TypedResources.General.List
import TypedResources.Proofs.Grouping
import TypedResources.Proofs.Loading
import TypedResources.Proofs.Merging
import TypedResources.Proofs.Splitting

/-! Which file of a group comes first. Paths are compared as they are written, so a neutral file
comes before those variants only whose path, without extension and culture, is not smaller as a
text. -/
namespace TypedResources

namespace Key

open TypedResources.Path Unicode

/-- The key of the path is the path without its extension: there is no culture to strip. -/
def IsNeutral (path : String) : Prop :=
  keyChars path.toList = join (dirName path.toList) (stem (baseName path.toList))

instance (path : String) : Decidable (IsNeutral path) :=
  inferInstanceAs (Decidable (keyChars path.toList =
    join (dirName path.toList) (stem (baseName path.toList))))

/-- The path as written, without extension and culture. -/
def writtenBase (path : String) : String :=
  String.ofList (stripCulture (withoutExtension path.toList))

theorem writtenBase_toList (path : String) :
    (writtenBase path).toList = lead path.toList ++ stripCulture (stem (baseName path.toList)) := by
  rw [writtenBase,String.toList_ofList,withoutExtension,stripCulture_append (isDirectory_lead _)]

theorem isNeutral_iff (path : String) :
    IsNeutral path ↔
      stripCulture (stem (baseName path.toList)) = stem (baseName path.toList) := by
  obtain ⟨dir,hjoin,hdir,-⟩ :=
    exists_join_eq (dirName path.toList) (slash_not_mem_stem path.toList)
  rw [IsNeutral,keyChars,hjoin,stripCulture_append hdir,List.append_cancel_left_eq]

/-- The key and the path as written weigh the same. -/
theorem weight_writtenBase (path : String) :
    ((writtenBase path).toList.map weight).sum = ((ofPath path).toList.map weight).sum := by
  obtain ⟨dir,hjoin,hdir,hweight⟩ :=
    exists_join_eq (dirName path.toList) (slash_not_mem_stem path.toList)
  rw [writtenBase_toList,ofPath,String.toList_ofList,keyChars,hjoin,stripCulture_append hdir,
    List.map_append,List.map_append,List.sum_append,List.sum_append,hweight,weight_dirName]

theorem order_of_neutral {path : String} (h : IsNeutral path) :
    (order path).1 = writtenBase path := by
  have hbase := writtenBase_toList path
  rw [(isNeutral_iff path).mp h] at hbase
  rw [← String.toList_inj,hbase,order,String.toList_ofList,withoutExtension]

theorem exists_culture {cs : List Char} (h : stripCulture cs ≠ cs) :
    ∃ culture, cs = stripCulture cs ++ '.' :: culture := by
  cases hs : splitLastDot cs with
  | none => exact absurd (by simp only [stripCulture,hs]) h
  | some parts =>
    obtain ⟨before,after⟩ := parts
    cases hc : isCulture after with
    | false => exact absurd (by simp [stripCulture,hs,hc]) h
    | true => exact ⟨after,by simpa [stripCulture,hs,hc] using eq_of_splitLastDot hs⟩

theorem order_of_variant {path : String} (h : ¬ IsNeutral path) :
    ∃ culture, (order path).1.toList = (writtenBase path).toList ++ '.' :: culture := by
  obtain ⟨culture,hculture⟩ := exists_culture fun he => h ((isNeutral_iff path).mpr he)
  refine ⟨culture,?_⟩
  rw [writtenBase_toList,List.append_assoc,← hculture,order,String.toList_ofList,withoutExtension]

theorem baseName_ne_nil {path : String} (h : isResourcePath path = true) :
    baseName path.toList ≠ [] := by
  intro hbase
  have hlead : lead path.toList = path.toList := by
    have hwhole := lead_append_baseName path.toList
    rwa [hbase,List.append_nil] at hwhole
  have hsuffix : ".resx".toList <:+ lowerChars path.toList := List.isSuffixOf_iff_suffix.mp h
  rcases isDirectory_lead path.toList with hnil | hlast
  · rw [hlead] at hnil
    rw [hnil] at hsuffix
    exact absurd hsuffix (by decide)
  · rw [hlead] at hlast
    obtain ⟨outer,houter⟩ := List.getLast?_eq_some_iff.mp hlast
    have hslash := getLast?_lowerFrom_slash [] outer
    rw [← houter] at hslash
    obtain ⟨front,hfront⟩ := hsuffix
    rw [show lowerFrom [] path.toList = lowerChars path.toList from rfl,← hfront] at hslash
    simp at hslash

/-- The base of a variant cannot be continued to that of a neutral file with the same key. -/
theorem writtenBase_eq_of_continued {n v : String} (hn : IsNeutral n)
    (hpath : isResourcePath n = true) (hkey : folded n = folded v)
    (hstart : (writtenBase v).toList <+: (writtenBase n).toList) :
    writtenBase n = writtenBase v := by
  obtain ⟨xs,hxs⟩ := hstart
  have hweight : (xs.map weight).sum = 0 := by
    have heq := weight_eq_of_lower_eq hkey
    rw [← weight_writtenBase,← weight_writtenBase,← hxs,List.map_append,List.sum_append] at heq
    omega
  have hslashes := (weight_eq_zero_iff xs).mp hweight
  have hstem : stem (baseName n.toList) ≠ [] := fun he =>
    baseName_ne_nil hpath ((stem_eq_nil_iff _).mp he)
  -- the neutral base ends with its stem, which has no slash, so nothing can follow the variant's
  cases hlast : xs.getLast? with
  | none =>
    rw [List.getLast?_eq_none_iff] at hlast
    rw [← String.toList_inj,← hxs,hlast,List.append_nil]
  | some c =>
    have hc : c = '/' := hslashes c (List.mem_of_getLast? hlast)
    have hend : (writtenBase n).toList.getLast? = some '/' := by
      rw [← hxs,List.getLast?_append,hlast,hc]
      rfl
    rw [writtenBase_toList,(isNeutral_iff n).mp hn,List.getLast?_append_of_ne_nil _ hstem] at hend
    exact absurd (List.mem_of_getLast? hend) (slash_not_mem_stem n.toList)

/-- A neutral file comes before a variant exactly when its base is not greater. -/
theorem order_lt_iff {n v : String} (hn : IsNeutral n) (hpath : isResourcePath n = true)
    (hv : ¬ IsNeutral v) (hkey : folded n = folded v) :
    ((order n).1 < (order v).1 ↔ writtenBase n ≤ writtenBase v) ∧
      ((order v).1 < (order n).1 ↔ writtenBase v < writtenBase n) := by
  obtain ⟨culture,hculture⟩ := order_of_variant hv
  rw [order_of_neutral hn]
  rcases lt_or_ge (writtenBase v) (writtenBase n) with hlt | hle
  · have hnot : ¬ (writtenBase v).toList <+: (writtenBase n).toList := fun hp =>
      hlt.ne' (writtenBase_eq_of_continued hn hpath hkey hp)
    have hbefore : (order v).1 < writtenBase n := by
      rw [String.lt_iff_toList_lt,hculture]
      exact List.append_lt_of_not_continued (String.lt_iff_toList_lt.mp hlt) hnot _
    exact ⟨iff_of_false hbefore.asymm hlt.not_ge,iff_of_true hbefore hlt⟩
  · have hbefore : writtenBase n < (order v).1 := by
      rw [String.lt_iff_toList_lt,hculture]
      refine lt_of_le_of_lt (String.le_iff_toList_le.mp hle) ?_
      simpa using @List.append_left_lt _ _ (writtenBase v).toList [] ('.' :: culture) (by simp)
    exact ⟨iff_of_true hbefore hle,iff_of_false hbefore.asymm hle.not_gt⟩

theorem orderedBefore_iff_le {n v : String} (hn : IsNeutral n) (hpath : isResourcePath n = true)
    (hv : ¬ IsNeutral v) (hkey : folded n = folded v) :
    orderedBefore n v = true ↔ writtenBase n ≤ writtenBase v := by
  obtain ⟨hlt,hgt⟩ := order_lt_iff hn hpath hv hkey
  rw [ResourceGroup.orderedBefore_iff,hlt]
  constructor
  · rintro (hle | ⟨heq,-⟩)
    · exact hle
    · exact not_lt.mp fun hless => (hgt.mpr hless).ne heq.symm
  · exact Or.inl

theorem orderedBefore_iff_lt {n v : String} (hn : IsNeutral n) (hpath : isResourcePath n = true)
    (hv : ¬ IsNeutral v) (hkey : folded n = folded v) :
    orderedBefore v n = true ↔ writtenBase v < writtenBase n := by
  obtain ⟨hlt,hgt⟩ := order_lt_iff hn hpath hv hkey
  rw [ResourceGroup.orderedBefore_iff,hgt]
  constructor
  · rintro (hless | ⟨heq,-⟩)
    · exact hless
    · exact not_le.mp fun hle => (hlt.mpr hle).ne heq.symm
  · exact Or.inl

end Key

namespace ResourceGroup

section Member

variable {files : List ResourceFile} {g : ResourceGroup} (hg : g ∈ ofAll files)
include hg

section Pair

variable {n v : ResourceFile} (hn : n ∈ g.files) (hv : v ∈ g.files)
  (hneutral : Key.IsNeutral n.path) (hvariant : ¬ Key.IsNeutral v.path)
include hn hv hneutral hvariant

theorem neutral_before_iff :
    Key.orderedBefore n.path v.path = true ↔ Key.writtenBase n.path ≤ Key.writtenBase v.path :=
  Key.orderedBefore_iff_le hneutral (isResourcePath_of_mem hg hn) hvariant
    ((folded_of_mem hg hn).trans (folded_of_mem hg hv).symm)

theorem variant_before_iff :
    Key.orderedBefore v.path n.path = true ↔ Key.writtenBase v.path < Key.writtenBase n.path :=
  Key.orderedBefore_iff_lt hneutral (isResourcePath_of_mem hg hn) hvariant
    ((folded_of_mem hg hn).trans (folded_of_mem hg hv).symm)

end Pair

/-- The places of a neutral file and of a variant follow the order of their bases as written. -/
theorem index_lt_iff {i j : Nat} (hi : i < g.files.length) (hj : j < g.files.length)
    (hneutral : Key.IsNeutral g.files[i].path) (hvariant : ¬ Key.IsNeutral g.files[j].path) :
    i < j ↔ Key.writtenBase g.files[i].path ≤ Key.writtenBase g.files[j].path := by
  have hn := List.getElem_mem hi
  have hv := List.getElem_mem hj
  have hpairs := List.pairwise_iff_getElem.mp (files_ordered hg)
  constructor
  · intro hij
    exact (neutral_before_iff hg hn hv hneutral hvariant).mp (hpairs i j hi hj hij)
  · intro hle
    by_contra hnot
    rcases Nat.lt_or_eq_of_le (Nat.le_of_not_lt hnot) with hji | rfl
    · have hlt := (variant_before_iff hg hn hv hneutral hvariant).mp (hpairs j i hj hi hji)
      exact hlt.not_ge hle
    · exact hvariant hneutral

end Member

end ResourceGroup

namespace Loading

open ResourceGroup

def declared? (f : ResourceFile) (name : Option String) : Option Entry :=
  (declarations f).find? (·.name = name)

/-- What is merged under a name is the first declaration in the first file that has one. -/
theorem find?_allDeclarations {files : List ResourceFile} {g : ResourceGroup}
    (hg : g ∈ ofAll files) {name : Option String} {n : ResourceFile} (hn : n ∈ g.files)
    (hname : (declared? n name).isSome) :
    ∃ before f after d, g.files = before ++ f :: after ∧ declared? f name = some d ∧
      (∀ x ∈ before, declared? x name = none) ∧
      (allDeclarations g).find? (·.name = name) = some d := by
  have hfind : (allDeclarations g).find? (·.name = name) =
      g.files.findSome? fun f => declared? f name := by
    rw [allDeclarations,sortFiles_files hg,List.find?_flatMap]
    rfl
  have hsome : (g.files.findSome? fun f => declared? f name).isSome := by
    rw [List.findSome?_isSome_iff]
    exact ⟨n,hn,hname⟩
  obtain ⟨d,hd⟩ := Option.isSome_iff_exists.mp hsome
  obtain ⟨before,f,after,hsplit,hf,hbefore⟩ := List.findSome?_eq_some_iff.mp hd
  exact ⟨before,f,after,d,hsplit,hf,hbefore,hfind.trans hd⟩

/-- A file of the group whose base as written is smaller than that of the neutral file declares the
name. -/
def SmallerDeclares (g : ResourceGroup) (n : ResourceFile) (name : Option String) : Prop :=
  ∃ v ∈ g.files, Key.writtenBase v.path < Key.writtenBase n.path ∧ (declared? v name).isSome

section Neutral

variable {files : List ResourceFile} {g : ResourceGroup} (hg : g ∈ ofAll files)
  {n : ResourceFile} (hn : n ∈ g.files) (hneutral : Key.IsNeutral n.path)
  (honly : ∀ f ∈ g.files, Key.IsNeutral f.path → f = n) {name : Option String}
include hg hn hneutral honly

/-- The first file that declares a name of the neutral file is the neutral file, or a variant with a
smaller base; it is such a variant as soon as there is one. -/
theorem first_declaring (hname : (declared? n name).isSome) :
    ∃ f ∈ g.files, ∃ d, declared? f name = some d ∧
      (allDeclarations g).find? (·.name = name) = some d ∧
      (f = n ∧ ¬ SmallerDeclares g n name ∨
        ¬ Key.IsNeutral f.path ∧ Key.writtenBase f.path < Key.writtenBase n.path) := by
  obtain ⟨before,f,after,d,hsplit,hf,hbefore,hfind⟩ := find?_allDeclarations hg hn hname
  have hmem : f ∈ g.files := by simp [hsplit]
  refine ⟨f,hmem,d,hf,hfind,?_⟩
  have hordered := files_ordered hg
  rw [hsplit,List.pairwise_append,List.pairwise_cons] at hordered
  obtain ⟨-,⟨hafter,-⟩,-⟩ := hordered
  -- whatever declares the name is the file found or comes after it
  have hlater : ∀ x ∈ g.files, (declared? x name).isSome → x = f ∨ x ∈ after := by
    intro x hx hsome
    rw [hsplit,List.mem_append,List.mem_cons] at hx
    rcases hx with hx | hx
    · rw [hbefore x hx] at hsome
      simp at hsome
    · exact hx
  by_cases hfn : f = n
  · refine Or.inl ⟨hfn,?_⟩
    rintro ⟨v,hv,hlt,hsome⟩
    have hvariant : ¬ Key.IsNeutral v.path := by
      intro hv'
      rw [honly v hv hv'] at hlt
      exact lt_irrefl _ hlt
    rcases hlater v hv hsome with rfl | hv'
    · exact hvariant (hfn ▸ hneutral)
    · have hle := (neutral_before_iff hg hn hv hneutral hvariant).mp (hfn ▸ hafter v hv')
      exact hlt.not_ge hle
  · have hvariant : ¬ Key.IsNeutral f.path := fun hf' => hfn (honly f hmem hf')
    refine Or.inr ⟨hvariant,?_⟩
    rcases hlater n hn hname with heq | hafter'
    · exact absurd heq.symm hfn
    · exact (variant_before_iff hg hn hmem hneutral hvariant).mp (hafter n hafter')

end Neutral

/-- What becomes of a name that the neutral file declares. -/
structure Prevails (g : ResourceGroup) (n : ResourceFile) (name : Option String) (d : Entry)
    (merged : List Entry) (e : Entry) : Prop where
  only : ∀ x ∈ merged, x.name = name ↔ x = e
  neutral : ¬ SmallerDeclares g n name → e.value = d.value ∧ e.type = d.type
  translation : SmallerDeclares g n name → ∃ v ∈ g.files, ¬ Key.IsNeutral v.path ∧
    Key.writtenBase v.path < Key.writtenBase n.path ∧
      ∃ x, declared? v name = some x ∧ e.value = x.value ∧ e.type = x.type

theorem exists_prevails {files : List ResourceFile} {g : ResourceGroup} (hg : g ∈ ofAll files)
    {n : ResourceFile} (hn : n ∈ g.files) (hneutral : Key.IsNeutral n.path)
    (honly : ∀ f ∈ g.files, Key.IsNeutral f.path → f = n) {name : Option String} {d : Entry}
    (hd : declared? n name = some d) :
    ∃ e ∈ Merge.entries (allDeclarations g),
      Prevails g n name d (Merge.entries (allDeclarations g)) e := by
  obtain ⟨f,hf,x,hx,hfind,hcase⟩ := first_declaring hg hn hneutral honly (by rw [hd]; rfl)
  obtain ⟨e,he,hunique,hsame⟩ := Merge.exists_of_find?_eq_some hfind
  obtain ⟨hvalue,htype⟩ := Merge.kept_of_withComment_eq hsame
  refine ⟨e,he,hunique,?_,?_⟩
  · intro hnone
    rcases hcase with ⟨rfl,-⟩ | ⟨-,hlt⟩
    · obtain rfl := Option.some.inj (hx.symm.trans hd)
      exact ⟨hvalue,htype⟩
    · exact absurd ⟨f,hf,hlt,by rw [hx]; rfl⟩ hnone
  · intro hsmaller
    rcases hcase with ⟨-,hnone⟩ | ⟨hvariant,hlt⟩
    · exact absurd hsmaller hnone
    · exact ⟨f,hf,hvariant,hlt,x,hx,hvalue,htype⟩

/-- A neutral file comes before exactly those variants whose base as written is not smaller. What it
declares prevails in the merge, unless a variant with a smaller base declares the name too: then a
variant prevails. -/
theorem neutral_prevails_unless_smaller (files : List ResourceFile) (g : ResourceGroup)
    (hg : g ∈ ofAll files) :
    (∀ i j (hi : i < g.files.length) (hj : j < g.files.length),
      Key.IsNeutral g.files[i].path → ¬ Key.IsNeutral g.files[j].path →
        (i < j ↔ Key.writtenBase g.files[i].path ≤ Key.writtenBase g.files[j].path)) ∧
    ∀ cancelled, ReadsAll cancelled g.files →
      ∃ merged, (load g cancelled).result = .ok ⟨some merged,[]⟩ ∧
        ∀ n ∈ g.files, Key.IsNeutral n.path → (∀ f ∈ g.files, Key.IsNeutral f.path → f = n) →
          ∀ name d, declared? n name = some d → ∃ e ∈ merged, Prevails g n name d merged e := by
  refine ⟨fun i j hi hj => index_lt_iff hg hi hj,?_⟩
  intro cancelled hreads
  rw [← sortFiles_files hg] at hreads
  refine ⟨_,(load_eq_some_iff g cancelled _ _).mpr ⟨hreads,rfl,rfl⟩,?_⟩
  intro n hn hneutral honly name d hd
  exact exists_prevails hg hn hneutral honly hd

theorem declared?_oneEntryFile {value : List Char} (h : Markup.IsPlain value) (path : String) :
    declared? (oneEntryFile path value) (some "x") =
      some ⟨some "x",some (String.ofList value),none,none⟩ := by
  simp [declared?,declarations,contribution_oneEntryFile h,added]

/-- A neutral file and a variant whose path begins with a capital letter. -/
def clashingFiles : List ResourceFile :=
  [oneEntryFile "A.en.resx" "Hello".toList,oneEntryFile "a.resx" "Greeting".toList]

theorem mem_ofAll_clashingFiles :
    (⟨"A",clashingFiles⟩ : ResourceGroup) ∈ ofAll clashingFiles := by
  have hpaths : ∀ path ∈ ["A.en.resx","a.resx"], Key.isResourcePath path = true ∧
      Key.folded path = Key.folded "A.en.resx" := by decide
  have hpair : Key.orderedBefore "A.en.resx" "a.resx" = true := by decide
  have hkey : Key.ofPath "A.en.resx" = "A" := by decide
  rw [← hkey]
  refine mem_ofAll_of_ordered ?_ (List.pairwise_pair.mpr hpair)
  intro f hf
  exact hpaths f.path (List.mem_map_of_mem hf)

/-- The translation takes the place of the neutral text. -/
theorem translation_prevails :
    (⟨"A",clashingFiles⟩ : ResourceGroup) ∈ ofAll clashingFiles ∧
    ReadsAll false clashingFiles ∧
    ∃ merged, (load ⟨"A",clashingFiles⟩ false).result = .ok ⟨some merged,[]⟩ ∧
      ∃ e ∈ merged, e.name = some "x" ∧ e.value = some "Hello" := by
  have hhello : Markup.IsPlain "Hello".toList := by simp [Markup.IsPlain,Markup.isChar]
  have hgreeting : Markup.IsPlain "Greeting".toList := by simp [Markup.IsPlain,Markup.isChar]
  have hvariant := declared?_oneEntryFile hhello "A.en.resx"
  have hneutral := declared?_oneEntryFile hgreeting "a.resx"
  have hreads : ReadsAll false clashingFiles := by
    refine ⟨rfl,?_,rfl,?_,trivial⟩
    · rw [contribution_oneEntryFile hhello]
      rfl
    · rw [contribution_oneEntryFile hgreeting]
      rfl
  have hfiles : ∀ f ∈ clashingFiles, f = oneEntryFile "A.en.resx" "Hello".toList ∨
      f = oneEntryFile "a.resx" "Greeting".toList := by
    simp [clashingFiles]
  have hculture : ¬ Key.IsNeutral "A.en.resx" := by decide
  have hplain : Key.IsNeutral "a.resx" := by decide
  have honly : ∀ f ∈ clashingFiles, Key.IsNeutral f.path →
      f = oneEntryFile "a.resx" "Greeting".toList := by
    intro f hf hpath
    rcases hfiles f hf with rfl | rfl
    · exact absurd hpath hculture
    · rfl
  have hsmaller : SmallerDeclares ⟨"A",clashingFiles⟩ (oneEntryFile "a.resx" "Greeting".toList)
      (some "x") := by
    have hless : Key.writtenBase "A.en.resx" < Key.writtenBase "a.resx" := by decide
    exact ⟨oneEntryFile "A.en.resx" "Hello".toList,by simp [clashingFiles],hless,
      by rw [hvariant]; rfl⟩
  obtain ⟨-,hload⟩ := neutral_prevails_unless_smaller clashingFiles ⟨"A",clashingFiles⟩
    mem_ofAll_clashingFiles
  obtain ⟨merged,hmerged,hprevails⟩ := hload false hreads
  obtain ⟨e,he,hp⟩ := hprevails (oneEntryFile "a.resx" "Greeting".toList) (by simp [clashingFiles])
    hplain honly (some "x") _ hneutral
  obtain ⟨v,hv,hvpath,-,x,hx,hvalue,-⟩ := hp.translation hsmaller
  refine ⟨mem_ofAll_clashingFiles,hreads,merged,hmerged,e,he,(hp.only e he).mpr rfl,?_⟩
  rcases hfiles v hv with rfl | rfl
  · obtain rfl := Option.some.inj (hvariant.symm.trans hx)
    rw [hvalue,String.ofList_toList]
  · exact absurd hplain hvpath

end Loading
end TypedResources

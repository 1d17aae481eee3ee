import TypedResources.Discovery.Find
import TypedResources.Proofs.Components
import TypedResources.Proofs.Keys
import TypedResources.Proofs.Partition
import TypedResources.Proofs.Trees

/-! Finding files and grouping them agree on what a resource file is. Every file found below a root
goes into exactly one group, and of what could be grouped only those files are not found whose names
are nothing but the extension. -/
namespace TypedResources

namespace Path

/-- What can stand between the slashes of a path and is kept when the path is taken apart. -/
def Kept (c : List Char) : Prop := c ≠ [] ∧ c ≠ ['.'] ∧ '/' ∉ c

theorem kept_of_mem_parts {path c : List Char} (h : c ∈ parts path) : Kept c := by
  obtain ⟨hc,hkept⟩ := List.mem_filter.mp h
  obtain ⟨hne,hdot⟩ := of_decide_eq_true hkept
  exact ⟨hne,hdot,List.not_mem_of_mem_splitOn hc⟩

theorem parts_cons_slash (path : List Char) : parts ('/' :: path) = parts path := by
  rw [parts,List.splitOn_cons_eq_if_modifyHead,if_pos (by simp),List.filter_cons_of_neg (by simp),
    parts]

theorem parts_rootSlashes_append (root path : List Char) :
    parts (rootSlashes root ++ path) = parts path := by
  unfold rootSlashes
  split_ifs
  · exact (parts_cons_slash _).trans (parts_cons_slash path)
  · exact parts_cons_slash path
  · rfl

theorem parts_intercalate {cs : List (List Char)} (h : ∀ c ∈ cs, Kept c) :
    parts (['/'].intercalate cs) = cs := by
  cases cs with
  | nil => rfl
  | cons c rest =>
    rw [parts,List.splitOn_intercalate '/' (fun d hd => (h d hd).2.2) (List.cons_ne_nil c rest),
      List.filter_eq_self]
    intro d hd
    simpa using ⟨(h d hd).1,(h d hd).2.1⟩

theorem isDirectory_append {outer inner : List Char} (houter : IsDirectory outer)
    (hinner : IsDirectory inner) : IsDirectory (outer ++ inner) := by
  rcases hinner with rfl | hlast
  · rwa [List.append_nil]
  · exact .inr (by simp [List.getLast?_append,hlast])

theorem isDirectory_rootSlashes (root : List Char) : IsDirectory (rootSlashes root) := by
  unfold rootSlashes
  split_ifs
  · exact .inr rfl
  · exact .inr rfl
  · exact .inl rfl

theorem isDirectory_slashed (cs : List (List Char)) : IsDirectory (slashed cs) := by
  rcases List.eq_nil_or_concat' cs with rfl | ⟨front,c,rfl⟩
  · exact .inl rfl
  · exact .inr (by simp [slashed_concat])

end Path

namespace Key

theorem length_of_isExtension {back : List Char} (h : IsExtension back) : back.length = 5 := by
  simpa [Unicode.extension] using congrArg List.length h

end Key

namespace Discovery

open TypedResources.Path TypedResources.Key

theorem isExtension_iff_lowerChars (cs : List Char) :
    IsExtension cs ↔ Unicode.lowerChars cs = ".resx".toList := by
  rw [eq_comm,Unicode.lowerChars]
  exact (eq_comm.trans (Unicode.eq_lowerFrom_iff (fun _ hd => hd) [] cs).symm)

/-- A name is that of a resource file if something stands before its extension. -/
theorem isResourceName_iff (name : String) : isResourceName name = true ↔
    ∃ front back, name.toList = front ++ back ∧ IsExtension back ∧ front ≠ [] := by
  rw [isResourceName,decide_eq_true_eq,← isExtension_iff_lowerChars]
  constructor
  · intro h
    have hsome : suffix name.toList ≠ [] := by
      intro hnil
      simpa [hnil] using length_of_isExtension h
    unfold suffix at h hsome
    cases hs : splitLastDot name.toList with
    | none => simp [hs] at hsome
    | some pieces =>
      obtain ⟨before,after⟩ := pieces
      simp only [hs] at h hsome
      split at h
      · rename_i hbare
        simp [hbare] at hsome
      · rename_i hends
        exact ⟨before,'.' :: after,eq_of_splitLastDot hs,h,fun hnil => hends (.inl hnil)⟩
  · rintro ⟨front,back,hname,hback,hfront⟩
    obtain ⟨letters,rfl,hlength,hdot,-⟩ := exists_letters hback
    have hletters : letters ≠ [] := by
      rintro rfl
      cases hlength
    rw [suffix,hname,splitLastDot_append hdot]
    simpa [hfront,hletters] using hback

/-- The two notions of a resource file differ on names that are nothing but an extension. -/
theorem isResourceName_iff_not_isExtension (name : String) : isResourceName name = true ↔
    (∃ front back, name.toList = front ++ back ∧ IsExtension back) ∧ ¬ IsExtension name.toList := by
  have hfront {front back : List Char} (hname : name.toList = front ++ back)
      (hback : IsExtension back) : front ≠ [] ↔ ¬ IsExtension name.toList := by
    refine not_congr ⟨fun hnil => ?_,fun hwhole => ?_⟩
    · rwa [hname,hnil,List.nil_append]
    · have hlength := length_of_isExtension hwhole
      rw [hname,List.length_append,length_of_isExtension hback] at hlength
      exact List.length_eq_zero_iff.mp (by omega)
  rw [isResourceName_iff]
  constructor
  · rintro ⟨front,back,hname,hback,hne⟩
    exact ⟨⟨front,back,hname,hback⟩,(hfront hname hback).mp hne⟩
  · rintro ⟨⟨front,back,hname,hback⟩,hnot⟩
    exact ⟨front,back,hname,hback,(hfront hname hback).mpr hnot⟩

theorem precedes_iff (a b : List String) : precedes a b = true ↔ a ≤ b := by simp [precedes]

section Order

variable {tree : Tree}

theorem mem_resourcePaths_iff (path : List String) : path ∈ resourcePaths tree ↔
    tree.Holds path ∧ ∃ name, path.getLast? = some name ∧ isResourceName name = true := by
  rw [resourcePaths,List.mem_mergeSort,List.mem_filter,Tree.mem_paths_iff,Option.any_eq_true]

theorem resourcePaths_rising (h : tree.Proper) : (resourcePaths tree).Pairwise (· < ·) := by
  have hle : (resourcePaths tree).Pairwise (· ≤ ·) := by
    have hsorted := @List.pairwise_mergeSort _ precedes
      (fun a b c hab hbc => (precedes_iff a c).mpr
        (((precedes_iff a b).mp hab).trans ((precedes_iff b c).mp hbc)))
      (fun a b => by simpa [precedes] using le_total a b)
      (tree.paths.filter fun path => path.getLast?.any isResourceName)
    exact hsorted.imp fun {a b} => (precedes_iff a b).mp
  have hne : (resourcePaths tree).Nodup :=
    (List.mergeSort_perm _ _).nodup_iff.mpr ((Tree.nodup_paths h).filter _)
  exact (hle.and hne).imp fun ⟨hle,hne⟩ => lt_of_le_of_ne hle hne

end Order

section Texts

variable (root : String) {path : List String} (h : ∀ name ∈ path, Tree.IsName name)

theorem toList_pathText (path : List String) : (pathText root path).toList =
    rootSlashes root.toList ++
      ['/'].intercalate (Path.parts root.toList ++ path.map String.toList) := by
  simp [pathText,parts,Function.comp_def]

include h

theorem parts_pathText : parts (pathText root path) = parts root ++ path := by
  have hkept : ∀ c ∈ Path.parts root.toList ++ path.map String.toList, Kept c := by
    intro c hc
    rcases List.mem_append.mp hc with hc | hc
    · exact kept_of_mem_parts hc
    · obtain ⟨name,hname,rfl⟩ := List.mem_map.mp hc
      obtain ⟨hne,hdot,hslash⟩ := h name hname
      exact ⟨fun hnil => hne (String.toList_inj.mp hnil),fun he => hdot (String.toList_inj.mp he),
        hslash⟩
  rw [parts,toList_pathText,parts_rootSlashes_append,parts_intercalate hkept,List.map_append,parts]
  simp [Function.comp_def]

theorem baseName_pathText {name : String} (hlast : path.getLast? = some name) :
    baseName (pathText root path).toList = name.toList := by
  obtain ⟨front,rfl⟩ := List.getLast?_eq_some_iff.mp hlast
  have hdir := isDirectory_append (isDirectory_rootSlashes root.toList)
    (isDirectory_slashed (Path.parts root.toList ++ front.map String.toList))
  have hslash : '/' ∉ name.toList := (h name (by simp)).2.2
  rw [toList_pathText,List.map_append,List.map_singleton,← List.append_assoc,intercalate_slash,
    ← List.append_assoc,baseName_of_directory hdir hslash]

end Texts

end Discovery

namespace ResourceGroup

theorem eq_of_common_file {files : List ResourceFile} {g h : ResourceGroup} {f : ResourceFile}
    (hg : g ∈ ofAll files) (hfg : f ∈ g.files) (hh : h ∈ ofAll files) (hfh : f ∈ h.files) :
    g = h := by
  obtain ⟨key,hkey⟩ := (mem_ofAll_iff g files).mp hg
  obtain ⟨key',hkey'⟩ := (mem_ofAll_iff h files).mp hh
  obtain rfl : key = key' := by
    rw [← lower_key_of_ofFiles? hkey,← lower_key_of_ofFiles? hkey',← folded_of_mem hg hfg,
      folded_of_mem hh hfh]
  exact Option.some.inj (hkey.symm.trans hkey')

theorem existsUnique_group {files : List ResourceFile} {f : ResourceFile} (hf : f ∈ files)
    (hpath : Key.isResourcePath f.path = true) : ∃! g, g ∈ ofAll files ∧ f ∈ g.files := by
  obtain ⟨g,hg,hfg⟩ := exists_mem_files hf hpath
  exact ⟨g,⟨hg,hfg⟩,fun h ⟨hh,hfh⟩ => eq_of_common_file hh hfh hg hfg⟩

end ResourceGroup

namespace Discovery

open TypedResources.Path TypedResources.Key

/-- What is found below a root: files that are given in the order of their components, that grouping
keeps, and that are all it would keep but for names that are nothing but an extension. -/
structure Finds (below : List String → Prop) (root : String) (files : List ResourceFile) :
    Prop where
  entries : ∀ f ∈ files, ∃ path, below path ∧ f.path = pathText root path
  spelled : ∀ path, below path → parts (pathText root path) = parts root ++ path
  rising : files.Pairwise fun f g => parts f.path < parts g.path
  once : (files.map (·.path)).Nodup
  recognised : ∀ f ∈ files, isResourcePath f.path = true
  covered : ((ResourceGroup.ofAll files).flatMap (·.files)).Perm files
  grouped : ∀ f ∈ files, ∃! g, g ∈ ResourceGroup.ofAll files ∧ f ∈ g.files
  returned : ∀ path, below path → ((∃ f ∈ files, f.path = pathText root path) ↔
    isResourcePath (pathText root path) = true ∧
      ¬ IsExtension (baseName (pathText root path).toList))

section Found

variable {tree : Tree} (h : tree.Proper) (root : String)
include h

theorem isResourcePath_pathText_iff {path : List String} (hpath : tree.Holds path) :
    isResourcePath (pathText root path) = true ∧
        ¬ IsExtension (baseName (pathText root path).toList) ↔ path ∈ resourcePaths tree := by
  obtain ⟨name,hlast⟩ := Option.isSome_iff_exists.mp (List.getLast?_isSome.mpr hpath.ne_nil)
  have hbase := baseName_pathText root (Tree.isName_of_holds h hpath) hlast
  rw [isResourcePath_iff_baseName,hbase,← isResourceName_iff_not_isExtension,mem_resourcePaths_iff,
    hlast]
  simp [hpath]

/-- Different paths below a root are written differently. -/
theorem pathText_inj {path path' : List String} (hpath : tree.Holds path)
    (hpath' : tree.Holds path') (htext : pathText root path = pathText root path') :
    path = path' := by
  have hparts := congrArg parts htext
  rw [parts_pathText root (Tree.isName_of_holds h hpath),
    parts_pathText root (Tree.isName_of_holds h hpath')] at hparts
  exact List.append_cancel_left hparts

theorem filesBelow_rising (read : List String → Except ReadFault (Option String)) :
    (filesBelow tree root read).Pairwise fun f g => parts f.path < parts g.path := by
  refine List.pairwise_map.mpr ((resourcePaths_rising h).imp_of_mem fun {a b} ha hb hlt => ?_)
  have hparts {path : List String} (hpath : path ∈ resourcePaths tree) :
      parts (pathText root path) = parts root ++ path :=
    parts_pathText root (Tree.isName_of_holds h ((mem_resourcePaths_iff path).mp hpath).1)
  rw [hparts ha,hparts hb]
  exact List.append_left_lt hlt

theorem exists_mem_filesBelow_iff (read : List String → Except ReadFault (Option String))
    {path : List String} (hpath : tree.Holds path) :
    (∃ f ∈ filesBelow tree root read, f.path = pathText root path) ↔
      path ∈ resourcePaths tree := by
  constructor
  · rintro ⟨f,hf,htext⟩
    obtain ⟨other,hother,rfl⟩ := List.mem_map.mp hf
    rwa [← pathText_inj h root ((mem_resourcePaths_iff other).mp hother).1 hpath htext]
  · exact fun hmem => ⟨_,List.mem_map_of_mem hmem,rfl⟩

theorem finds_filesBelow (read : List String → Except ReadFault (Option String)) :
    Finds tree.Holds root (filesBelow tree root read) := by
  have hrising := filesBelow_rising h root read
  have hentries : ∀ f ∈ filesBelow tree root read,
      ∃ path ∈ resourcePaths tree, tree.Holds path ∧ f.path = pathText root path := by
    intro f hf
    obtain ⟨path,hpath,rfl⟩ := List.mem_map.mp hf
    exact ⟨path,hpath,((mem_resourcePaths_iff path).mp hpath).1,rfl⟩
  have hrecognised : ∀ f ∈ filesBelow tree root read, isResourcePath f.path = true := by
    intro f hf
    obtain ⟨path,hpath,hholds,htext⟩ := hentries f hf
    rw [htext]
    exact ((isResourcePath_pathText_iff h root hholds).mpr hpath).1
  have hcovered := ResourceGroup.ofAll_files_perm (filesBelow tree root read)
  rw [List.filter_eq_self.mpr hrecognised] at hcovered
  exact
    { entries := fun f hf => (hentries f hf).imp fun _ hpath => hpath.2
      spelled := fun path hpath => parts_pathText root (Tree.isName_of_holds h hpath)
      rising := hrising
      once := List.pairwise_map.mpr (hrising.imp fun hlt heq => absurd (heq ▸ hlt) (lt_irrefl _))
      recognised := hrecognised
      covered := hcovered
      grouped := fun f hf => ResourceGroup.existsUnique_group hf (hrecognised f hf)
      returned := fun path hpath => (exists_mem_filesBelow_iff h root read hpath).trans
        (isResourcePath_pathText_iff h root hpath).symm }

end Found

theorem finds_nothing (root : String) : Finds (fun _ => False) root [] where
  entries := by simp
  spelled := by simp
  rising := .nil
  once := List.nodup_nil
  recognised := by simp
  covered := by simp [ResourceGroup.ofAll,ResourceGroup.ofKeyed,ResourceGroup.keyed]
  grouped := by simp
  returned := by simp

/-- A path goes down from what a root leads to in a tree. -/
def Below (tree : Tree) (root : String) (path : List String) : Prop :=
  ∃ start, start? tree root = some start ∧ start.Holds path

/-- Below a tree that a root leads to, and below every root in a tree, exactly those files are
found, once each and in order, that grouping takes for resource files, but for bare extensions. -/
theorem found_files_are_grouped {tree : Tree} (h : tree.Proper) (root : String) :
    (∀ read, Finds tree.Holds root (filesBelow tree root read)) ∧
      ∀ later, Finds (Below tree root) root (files tree later root) := by
  refine ⟨finds_filesBelow h root,fun later => ?_⟩
  unfold files Below
  cases hstart : start? tree root with
  | none => simpa using finds_nothing root
  | some start =>
    have hproper : start.Proper := by
      unfold start? at hstart
      split at hstart
      · exact h.follow? hstart
      · cases hstart
    simpa using finds_filesBelow hproper root _

/-- A file that is named by a bare extension, and one with a dot more in a directory that is named
like a resource file. -/
def sources : Tree :=
  ((Tree.empty.makeDirectory ["src","A.RESX"]).write ByteArray.empty ["src",".resx"]).write
    ByteArray.empty ["src","A.RESX","..resX"]

theorem found_in_sources : sources.Proper ∧
    (∃ f ∈ files sources sources "./src//", f.path = "src/A.RESX/..resX") ∧
      ¬ ∃ f ∈ files sources sources "./src//", f.path = "src/.resx" := by
  have hproper : sources.Proper :=
    ((Tree.proper_empty.makeDirectory (by decide)).write _ (by decide)).write _ (by decide)
  have hfinds := (found_files_are_grouped hproper "./src//").2 sources
  have hstart : start? sources "./src//" = some (.directory
      [("A.RESX",.directory [("..resX",.file ByteArray.empty)]),(".resx",.file ByteArray.empty)]) :=
    rfl
  have hinner : Below sources "./src//" ["A.RESX","..resX"] :=
    ⟨_,hstart,.inner List.mem_cons_self (.item List.mem_cons_self)⟩
  have hbare : Below sources "./src//" [".resx"] :=
    ⟨_,hstart,.item (List.mem_cons_of_mem _ List.mem_cons_self)⟩
  have hreturned := (hfinds.returned _ hinner).mpr (by decide)
  have hleft := mt (hfinds.returned _ hbare).mp (by decide)
  exact ⟨hproper,hreturned,hleft⟩

end Discovery
end TypedResources

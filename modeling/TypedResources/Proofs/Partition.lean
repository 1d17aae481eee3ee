import Mathlib.Data.List.Nodup
import Mathlib.Data.List.Perm.Basic
import Mathlib.Data.Prod.Lex
import TypedResources.Proofs.Grouping
import TypedResources.Run.Generate

/-! The groups of some files are a partition of the resource files among them. As long as the paths
differ, neither the groups nor a run over them depend on the order in which the files are given. -/
namespace TypedResources
namespace ResourceGroup

/-- The groups hold the resource files, each as often as it is given, and bring together those of
one key, letter case apart. They come by rising key, and their files in the order of their paths. -/
structure Partitions (files : List ResourceFile) (groups : List ResourceGroup) : Prop where
  covers : (groups.flatMap (·.files)).Perm (files.filter fun f => Key.isResourcePath f.path)
  inhabited : ∀ g ∈ groups, g.files ≠ []
  together : ∀ a ∈ files, ∀ b ∈ files, Key.isResourcePath a.path = true →
    Key.isResourcePath b.path = true →
      ((∃ g ∈ groups, a ∈ g.files ∧ b ∈ g.files) ↔ Key.folded a.path = Key.folded b.path)
  apart : groups.Pairwise fun g h => g.files.Disjoint h.files
  distinct : groups.Pairwise fun g h => Unicode.lower g.key ≠ Unicode.lower h.key
  rising : groups.Pairwise fun g h => g.key < h.key
  ordered : ∀ g ∈ groups, g.files.Pairwise fun a b =>
    toLex (Key.order a.path) ≤ toLex (Key.order b.path)

/-- Filing under distinct keys loses nothing and doubles nothing. -/
theorem flatMap_withKey_perm (files : List ResourceFile) {keys : List String} (h : keys.Nodup) :
    (keys.flatMap fun key => withKey key files).Perm (files.filter fun f =>
      Key.isResourcePath f.path && decide (Key.folded f.path ∈ keys)) := by
  induction keys with
  | nil => simp
  | cons key rest ih =>
    obtain ⟨hnew,hrest⟩ := List.nodup_cons.mp h
    -- the files of the first key are set apart, and those left are filed under the other keys
    have hsplit := List.filter_append_perm (fun f => decide (Key.folded f.path = key))
      (files.filter fun f => Key.isResourcePath f.path && decide (Key.folded f.path ∈ key :: rest))
    have hhere : withKey key files = (files.filter fun f => Key.isResourcePath f.path &&
        decide (Key.folded f.path ∈ key :: rest)).filter
          fun f => decide (Key.folded f.path = key) := by
      rw [withKey,List.filter_filter]
      refine List.filter_congr fun f _ => ?_
      by_cases hf : Key.folded f.path = key <;> simp [hf]
    have hthere : (files.filter fun f => Key.isResourcePath f.path &&
        decide (Key.folded f.path ∈ rest)) = (files.filter fun f => Key.isResourcePath f.path &&
          decide (Key.folded f.path ∈ key :: rest)).filter
            fun f => !decide (Key.folded f.path = key) := by
      rw [List.filter_filter]
      refine List.filter_congr fun f _ => ?_
      by_cases hf : Key.folded f.path = key <;> simp [hf,hnew]
    rw [List.flatMap_cons,hhere]
    exact ((ih hrest).append_left _).trans (by rwa [hthere])

theorem files_ofFiles? (files : List ResourceFile) :
    (ofFiles? files).toList.flatMap (·.files) = sortFiles files := by
  unfold ofFiles?
  split
  · rename_i hnil
    simp [hnil]
  · rename_i first rest hcons
    simp [hcons]

theorem ofKeyed_files (files : List ResourceFile) :
    (ofKeyed (keyed files)).flatMap (·.files) =
      ((keyed files).map (·.1)).eraseDups.flatMap fun key => sortFiles (withKey key files) := by
  rw [ofKeyed,List.filterMap_eq_flatMap_toList,List.flatMap_assoc]
  refine List.flatMap_congr fun key _ => ?_
  rw [files_ofFiles?,membersOf_keyed]

theorem ofAll_files_perm (files : List ResourceFile) :
    ((ofAll files).flatMap (·.files)).Perm (files.filter fun f => Key.isResourcePath f.path) := by
  have hgroups : ((ofAll files).flatMap (·.files)).Perm
      ((ofKeyed (keyed files)).flatMap (·.files)) := (List.mergeSort_perm _ _).flatMap_right _
  have hsorted := List.Perm.flatMap_left ((keyed files).map (·.1)).eraseDups
    fun key _ => sortFiles_perm (withKey key files)
  have hfiled := flatMap_withKey_perm files (List.nodup_eraseDups ((keyed files).map (·.1)))
  rw [ofKeyed_files] at hgroups
  have hall := (hgroups.trans hsorted).trans hfiled
  rwa [List.filter_congr] at hall
  intro f hf
  by_cases hpath : Key.isResourcePath f.path = true
  · have hkey : Key.folded f.path ∈ ((keyed files).map (·.1)).eraseDups := by
      rw [List.mem_eraseDups,mem_keys_iff]
      exact ⟨f,by simp [withKey,hf,hpath]⟩
    simp only [hpath,hkey,decide_true,Bool.and_self]
  · simp [hpath]

theorem mem_files_iff {files : List ResourceFile} {g : ResourceGroup} (hg : g ∈ ofAll files)
    (f : ResourceFile) :
    f ∈ g.files ↔ f ∈ files ∧ Key.isResourcePath f.path = true ∧
      Key.folded f.path = Unicode.lower g.key := by
  rw [← (membersAmong_perm hg).mem_iff,membersAmong,List.mem_filter,admits,Bool.and_eq_true,
    decide_eq_true_eq]

theorem exists_mem_files {files : List ResourceFile} {f : ResourceFile} (hf : f ∈ files)
    (hpath : Key.isResourcePath f.path = true) : ∃ g ∈ ofAll files, f ∈ g.files := by
  have hmem : f ∈ files.filter fun f => Key.isResourcePath f.path :=
    List.mem_filter.mpr ⟨hf,hpath⟩
  exact List.mem_flatMap.mp ((ofAll_files_perm files).mem_iff.mpr hmem)

/-- Two resource files share a group exactly when they share their key, letter case apart. -/
theorem exists_common_group_iff {files : List ResourceFile} {a b : ResourceFile} (ha : a ∈ files)
    (hb : b ∈ files) (hpa : Key.isResourcePath a.path = true)
    (hpb : Key.isResourcePath b.path = true) :
    (∃ g ∈ ofAll files, a ∈ g.files ∧ b ∈ g.files) ↔ Key.folded a.path = Key.folded b.path := by
  constructor
  · rintro ⟨g,hg,hag,hbg⟩
    exact (folded_of_mem hg hag).trans (folded_of_mem hg hbg).symm
  · intro hkey
    obtain ⟨g,hg,hag⟩ := exists_mem_files ha hpa
    have hbg : Key.folded b.path = Unicode.lower g.key := hkey ▸ folded_of_mem hg hag
    exact ⟨g,hg,hag,(mem_files_iff hg b).mpr ⟨hb,hpb,hbg⟩⟩

theorem order_snd (path : String) : (Key.order path).2 = path := rfl

theorem orderedBefore_iff_lex (a b : String) :
    Key.orderedBefore a b = true ↔ toLex (Key.order a) ≤ toLex (Key.order b) := by
  simp only [orderedBefore_iff,Prod.Lex.toLex_le_toLex,order_snd]

theorem files_disjoint (files : List ResourceFile) :
    (ofAll files).Pairwise fun g h => g.files.Disjoint h.files := by
  refine (ofAll_keys_ne files).imp_of_mem ?_
  intro g h hg hh hne f hfg hfh
  exact hne ((folded_of_mem hg hfg).symm.trans (folded_of_mem hh hfh))

theorem files_ordered_lex {files : List ResourceFile} {g : ResourceGroup} (hg : g ∈ ofAll files) :
    g.files.Pairwise fun a b => toLex (Key.order a.path) ≤ toLex (Key.order b.path) := by
  refine (files_ordered hg).imp ?_
  intro a b hab
  exact (orderedBefore_iff_lex a.path b.path).mp hab

/-- Grouping partitions the resource files by their keys. -/
theorem ofAll_partitions (files : List ResourceFile) : Partitions files (ofAll files) where
  covers := ofAll_files_perm files
  inhabited := fun _ hg => files_ne_nil hg
  together := fun _ ha _ hb hpa hpb => exists_common_group_iff ha hb hpa hpb
  apart := files_disjoint files
  distinct := ofAll_keys_ne files
  rising := ofAll_keys_lt files
  ordered := fun _ hg => files_ordered_lex hg

theorem path_eq_of_orderedBefore {a b : String} (hab : Key.orderedBefore a b = true)
    (hba : Key.orderedBefore b a = true) : a = b := by
  rw [orderedBefore_iff_lex] at hab hba
  have heq : Key.order a = Key.order b := toLex_inj.mp (le_antisymm hab hba)
  have hpaths := congrArg Prod.snd heq
  rwa [order_snd,order_snd] at hpaths

/-- Sorting forgets the order in which files of distinct paths are given. -/
theorem sortFiles_eq_of_perm {files others : List ResourceFile} (hperm : files.Perm others)
    (hdistinct : (files.map (·.path)).Nodup) : sortFiles files = sortFiles others := by
  have hsorted : (sortFiles files).Perm (sortFiles others) :=
    (sortFiles_perm files).trans (hperm.trans (sortFiles_perm others).symm)
  refine hsorted.eq_of_pairwise ?_ (sortFiles_ordered files) (sortFiles_ordered others)
  intro a b ha hb hab hba
  have hb' : b ∈ sortFiles files := hsorted.mem_iff.mpr hb
  exact List.inj_on_of_nodup_map hdistinct ((sortFiles_perm files).mem_iff.mp ha)
    ((sortFiles_perm files).mem_iff.mp hb') (path_eq_of_orderedBefore hab hba)

theorem ofFiles?_withKey_eq_of_perm {files others : List ResourceFile} (hperm : files.Perm others)
    (hdistinct : (files.map (·.path)).Nodup) (key : String) :
    ofFiles? (withKey key files) = ofFiles? (withKey key others) := by
  have hmembers : ((withKey key files).map (·.path)).Nodup :=
    hdistinct.sublist (List.filter_sublist.map _)
  have hkeyed : (withKey key files).Perm (withKey key others) := hperm.filter _
  rw [ofFiles?,ofFiles?,sortFiles_eq_of_perm hkeyed hmembers]

theorem ofAll_nodup (files : List ResourceFile) : (ofAll files).Nodup :=
  (ofAll_keys_lt files).imp fun hlt he => (he ▸ hlt).false

/-- Files of distinct paths form the same groups in every order. -/
theorem ofAll_eq_of_perm {files others : List ResourceFile} (hperm : files.Perm others)
    (hdistinct : (files.map (·.path)).Nodup) : ofAll files = ofAll others := by
  have hmem : ∀ g, g ∈ ofAll files ↔ g ∈ ofAll others := by
    intro g
    simp only [mem_ofAll_iff,ofFiles?_withKey_eq_of_perm hperm hdistinct]
  have hgroups : (ofAll files).Perm (ofAll others) :=
    (List.perm_ext_iff_of_nodup (ofAll_nodup files) (ofAll_nodup others)).mpr hmem
  refine hgroups.eq_of_pairwise ?_ (ofAll_keys_lt files) (ofAll_keys_lt others)
  intro g h _ _ hlt hgt
  exact absurd hgt hlt.asymm

end ResourceGroup

namespace Generate

/-- Files of distinct paths give the same run in every order: the same result, the same files asked
and the same log. -/
theorem run_eq_of_perm (job : Job) {files others : List ResourceFile} (hperm : files.Perm others)
    (hdistinct : (files.map (·.path)).Nodup) (cancelled : Bool) :
    run job files cancelled = run job others cancelled := by
  rw [run,run,ResourceGroup.ofAll_eq_of_perm hperm hdistinct]

def bareJob : Job := ⟨"/",⟨fun _ _ => none,fun _ => none⟩,none,true⟩

/-- Two groups, one of which spells its key in two ways and has a file that is not found. -/
def mixedFiles : List ResourceFile :=
  [.ofText "b.resx" none,.ofText "A.fr.resx" (some "<root/>"),⟨"a.resx",false,.error .notFound⟩]

theorem run_reverse_mixedFiles :
    mixedFiles.reverse.Perm mixedFiles ∧ (mixedFiles.reverse.map (·.path)).Nodup ∧
      run bareJob mixedFiles.reverse false = run bareJob mixedFiles false := by
  have hperm : mixedFiles.reverse.Perm mixedFiles := List.reverse_perm _
  have hdistinct : (mixedFiles.reverse.map (·.path)).Nodup := by decide
  exact ⟨hperm,hdistinct,run_eq_of_perm bareJob hperm hdistinct false⟩

end Generate
end TypedResources

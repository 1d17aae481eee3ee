import Mathlib.Data.String.Basic
import TypedResources.General.List
import TypedResources.Resource.Group

/-! What a list of files is grouped into. A group is what its members alone are grouped into, its
members come in the order of their paths, and no two groups share a key. -/
namespace TypedResources
namespace ResourceGroup

/-- The file belongs to the group: it is a resource file and has the group's key, letter case
apart. -/
def admits (g : ResourceGroup) (f : ResourceFile) : Bool :=
  Key.isResourcePath f.path && decide (Key.folded f.path = Unicode.lower g.key)

def membersAmong (g : ResourceGroup) (files : List ResourceFile) : List ResourceFile :=
  files.filter g.admits

theorem admits_congr {g h : ResourceGroup} (hk : Unicode.lower g.key = Unicode.lower h.key) :
    g.admits = h.admits := by
  funext f
  simp only [admits,hk]

theorem orderedBefore_iff (a b : String) :
    Key.orderedBefore a b = true ↔
      (Key.order a).1 < (Key.order b).1 ∨ (Key.order a).1 = (Key.order b).1 ∧ a ≤ b := by
  simp only [Key.orderedBefore,Bool.or_eq_true,Bool.and_eq_true,decide_eq_true_eq,Bool.not_eq_true',
    decide_eq_false_iff_not,not_lt]

theorem orderedBefore_trans (a b c : String) (hab : Key.orderedBefore a b = true)
    (hbc : Key.orderedBefore b c = true) : Key.orderedBefore a c = true := by
  rw [orderedBefore_iff] at *
  rcases hab with hab | ⟨hab,hle⟩
  · rcases hbc with hbc | ⟨hbc,_⟩
    · exact Or.inl (hab.trans hbc)
    · rw [hbc] at hab
      exact Or.inl hab
  · rcases hbc with hbc | ⟨hbc,hle'⟩
    · rw [← hab] at hbc
      exact Or.inl hbc
    · exact Or.inr ⟨hab.trans hbc,hle.trans hle'⟩

theorem orderedBefore_total (a b : String) :
    (Key.orderedBefore a b || Key.orderedBefore b a) = true := by
  rw [Bool.or_eq_true,orderedBefore_iff,orderedBefore_iff]
  rcases lt_trichotomy (Key.order a).1 (Key.order b).1 with h | h | h
  · exact Or.inl (Or.inl h)
  · rcases le_total a b with hab | hba
    · exact Or.inl (Or.inr ⟨h,hab⟩)
    · exact Or.inr (Or.inr ⟨h.symm,hba⟩)
  · exact Or.inr (Or.inl h)

theorem sortFiles_perm (files : List ResourceFile) : (sortFiles files).Perm files :=
  List.mergeSort_perm _ _

theorem sortFiles_ordered (files : List ResourceFile) :
    (sortFiles files).Pairwise fun a b => Key.orderedBefore a.path b.path = true :=
  @List.pairwise_mergeSort _ (fun a b : ResourceFile => Key.orderedBefore a.path b.path)
    (fun a b c => orderedBefore_trans a.path b.path c.path)
    (fun a b => orderedBefore_total a.path b.path) files

theorem sortFiles_sorted (files : List ResourceFile) :
    sortFiles (sortFiles files) = sortFiles files :=
  List.mergeSort_of_pairwise (sortFiles_ordered files)

/-- Whether files are in order shows from their paths. -/
theorem sortFiles_eq_of_paths {files others : List ResourceFile} (h : sortFiles files = files)
    (hpaths : files.map (·.path) = others.map (·.path)) : sortFiles others = others := by
  have hordered := sortFiles_ordered files
  rw [h] at hordered
  have hmapped : (files.map (·.path)).Pairwise fun a b => Key.orderedBefore a b = true :=
    List.pairwise_map.mpr hordered
  rw [hpaths,List.pairwise_map] at hmapped
  exact List.mergeSort_of_pairwise hmapped

theorem ofFiles?_eq_some {files : List ResourceFile} {g : ResourceGroup}
    (h : ofFiles? files = some g) :
    g.files = sortFiles files ∧ ∃ f ∈ files, g.key = Key.ofPath f.path := by
  unfold ofFiles? at h
  split at h
  · simp at h
  · rename_i first rest heq
    have hmem : first ∈ files := (sortFiles_perm files).mem_iff.mp (by simp [heq])
    obtain rfl := Option.some.inj h
    exact ⟨heq.symm,first,hmem,rfl⟩

def withKey (key : String) (files : List ResourceFile) : List ResourceFile :=
  files.filter fun f => Key.isResourcePath f.path && decide (Key.folded f.path = key)

theorem membersOf_keyed (key : String) (files : List ResourceFile) :
    membersOf key (keyed files) = withKey key files := by
  induction files with
  | nil => rfl
  | cons f rest ih =>
    by_cases hp : Key.isResourcePath f.path = true <;> by_cases hk : Key.folded f.path = key <;>
      simp_all [membersOf,keyed,withKey]

theorem mem_keys_iff (key : String) (files : List ResourceFile) :
    key ∈ (keyed files).map (·.1) ↔ ∃ f, f ∈ withKey key files := by
  simp [keyed,withKey,and_assoc]

/-- The group of a folded key is made of the files of that key. -/
theorem mem_ofKeyed_iff (g : ResourceGroup) (files : List ResourceFile) :
    g ∈ ofKeyed (keyed files) ↔ ∃ key, ofFiles? (withKey key files) = some g := by
  simp only [ofKeyed,List.mem_filterMap,List.mem_eraseDups,membersOf_keyed,mem_keys_iff]
  constructor
  · rintro ⟨key,-,h⟩
    exact ⟨key,h⟩
  · rintro ⟨key,h⟩
    obtain ⟨-,f,hf,-⟩ := ofFiles?_eq_some h
    exact ⟨key,⟨f,hf⟩,h⟩

theorem mem_ofAll_iff (g : ResourceGroup) (files : List ResourceFile) :
    g ∈ ofAll files ↔ ∃ key, ofFiles? (withKey key files) = some g := by
  rw [ofAll,List.mem_mergeSort,mem_ofKeyed_iff]

/-- Ordered resource files of one folded key make a group. -/
theorem mem_ofAll_of_ordered {first : ResourceFile} {rest : List ResourceFile}
    (hkey : ∀ f ∈ first :: rest, Key.isResourcePath f.path = true ∧
      Key.folded f.path = Key.folded first.path)
    (hordered : (first :: rest).Pairwise fun a b => Key.orderedBefore a.path b.path = true) :
    (⟨Key.ofPath first.path,first :: rest⟩ : ResourceGroup) ∈ ofAll (first :: rest) := by
  refine (mem_ofAll_iff _ _).mpr ⟨Key.folded first.path,?_⟩
  have hall : withKey (Key.folded first.path) (first :: rest) = first :: rest := by
    refine List.filter_eq_self.mpr fun f hf => ?_
    simp [hkey f hf]
  rw [hall,ofFiles?,sortFiles,List.mergeSort_of_pairwise hordered]

theorem lower_key_of_ofFiles? {key : String} {files : List ResourceFile} {g : ResourceGroup}
    (h : ofFiles? (withKey key files) = some g) : Unicode.lower g.key = key := by
  obtain ⟨-,f,hf,hkey⟩ := ofFiles?_eq_some h
  have hfold : Key.folded f.path = key := by simp_all [withKey]
  rw [hkey]
  exact hfold

theorem ofFiles?_membersAmong {files : List ResourceFile} {g : ResourceGroup}
    (hg : g ∈ ofAll files) : ofFiles? (g.membersAmong files) = some g := by
  obtain ⟨key,h⟩ := (mem_ofAll_iff g files).mp hg
  obtain rfl := lower_key_of_ofFiles? h
  exact h

theorem files_eq_sortFiles {files : List ResourceFile} {g : ResourceGroup}
    (hg : g ∈ ofAll files) : g.files = sortFiles (g.membersAmong files) :=
  (ofFiles?_eq_some (ofFiles?_membersAmong hg)).1

theorem membersAmong_perm {files : List ResourceFile} {g : ResourceGroup} (hg : g ∈ ofAll files) :
    (g.membersAmong files).Perm g.files := by
  rw [files_eq_sortFiles hg]
  exact (sortFiles_perm _).symm

theorem mem_of_mem_files {files : List ResourceFile} {g : ResourceGroup} (hg : g ∈ ofAll files)
    {f : ResourceFile} (hf : f ∈ g.files) : f ∈ files :=
  (List.mem_filter.mp ((membersAmong_perm hg).mem_iff.mpr hf)).1

theorem files_ne_nil {files : List ResourceFile} {g : ResourceGroup} (hg : g ∈ ofAll files) :
    g.files ≠ [] := by
  obtain ⟨-,f,hf,-⟩ := ofFiles?_eq_some (ofFiles?_membersAmong hg)
  exact List.ne_nil_of_mem ((membersAmong_perm hg).mem_iff.mp hf)

section Member

variable {files : List ResourceFile} {g : ResourceGroup} (hg : g ∈ ofAll files)
include hg

theorem isResourcePath_of_mem {f : ResourceFile} (hf : f ∈ g.files) :
    Key.isResourcePath f.path = true := by
  have hadmits := (List.mem_filter.mp ((membersAmong_perm hg).mem_iff.mpr hf)).2
  exact (Bool.and_eq_true_iff.mp hadmits).1

theorem folded_of_mem {f : ResourceFile} (hf : f ∈ g.files) :
    Key.folded f.path = Unicode.lower g.key := by
  have hadmits := (List.mem_filter.mp ((membersAmong_perm hg).mem_iff.mpr hf)).2
  exact of_decide_eq_true (Bool.and_eq_true_iff.mp hadmits).2

theorem files_ordered : g.files.Pairwise fun a b => Key.orderedBefore a.path b.path = true := by
  rw [files_eq_sortFiles hg]
  exact sortFiles_ordered _

theorem sortFiles_files : sortFiles g.files = g.files := by
  rw [files_eq_sortFiles hg,sortFiles_sorted]

end Member

/-- Whatever other files there are, a list with the same members has the same group. -/
theorem mem_ofAll_of_membersAmong_eq {files others : List ResourceFile} {g : ResourceGroup}
    (hg : g ∈ ofAll files) (h : g.membersAmong others = g.membersAmong files) :
    g ∈ ofAll others := by
  refine (mem_ofAll_iff g others).mpr ⟨Unicode.lower g.key,?_⟩
  have hh := ofFiles?_membersAmong hg
  rwa [← h] at hh

theorem ofKeyed_keys_ne (files : List ResourceFile) :
    (ofKeyed (keyed files)).Pairwise fun g h => Unicode.lower g.key ≠ Unicode.lower h.key := by
  rw [ofKeyed,List.pairwise_filterMap]
  refine (List.nodup_eraseDups _).imp ?_
  intro key key' hne g hg h hh
  rw [membersOf_keyed] at hg hh
  rwa [lower_key_of_ofFiles? hg,lower_key_of_ofFiles? hh]

/-- Keys differ in more than letter case. -/
theorem ofAll_keys_ne (files : List ResourceFile) :
    (ofAll files).Pairwise fun g h => Unicode.lower g.key ≠ Unicode.lower h.key :=
  (List.mergeSort_perm _ _).symm.pairwise (ofKeyed_keys_ne files) fun h => h.symm

theorem ofAll_keys_le (files : List ResourceFile) :
    (ofAll files).Pairwise fun g h => g.key ≤ h.key := by
  have h := @List.pairwise_mergeSort _ (fun a b : ResourceGroup => decide (a.key ≤ b.key))
    (fun a b c hab hbc => decide_eq_true ((of_decide_eq_true hab).trans (of_decide_eq_true hbc)))
    (fun a b => by simpa using le_total a.key b.key) (ofKeyed (keyed files))
  exact h.imp of_decide_eq_true

theorem ofAll_keys_lt (files : List ResourceFile) :
    (ofAll files).Pairwise fun g h => g.key < h.key := by
  refine ((ofAll_keys_le files).and (ofAll_keys_ne files)).imp ?_
  rintro g h ⟨hle,hne⟩
  exact lt_of_le_of_ne hle fun he => hne (congrArg Unicode.lower he)

theorem membersAmong_membersAmong (g : ResourceGroup) (files : List ResourceFile) :
    g.membersAmong (g.membersAmong files) = g.membersAmong files := by
  simp [membersAmong,List.filter_filter]

/-- The members of a group alone form just that group. -/
theorem ofAll_membersAmong {files : List ResourceFile} {g : ResourceGroup} (hg : g ∈ ofAll files) :
    ofAll (g.membersAmong files) = [g] := by
  have hmem : g ∈ ofAll (g.membersAmong files) :=
    mem_ofAll_of_membersAmong_eq hg (membersAmong_membersAmong g files)
  have huniq : ∀ h ∈ ofAll (g.membersAmong files), h = g := by
    intro h hh
    obtain ⟨-,f,hf,hkey⟩ := ofFiles?_eq_some (ofFiles?_membersAmong hh)
    have hlower : Unicode.lower h.key = Unicode.lower g.key := by
      have hadmits := (List.mem_filter.mp (List.mem_filter.mp hf).1).2
      have hfold : Key.folded f.path = Unicode.lower g.key := by simp_all [admits]
      rw [hkey]
      exact hfold
    have hmembers := ofFiles?_membersAmong hh
    rw [show h.membersAmong = g.membersAmong from funext fun fs => by
        simp only [membersAmong,admits_congr hlower],
      membersAmong_membersAmong,ofFiles?_membersAmong hg] at hmembers
    exact (Option.some.inj hmembers).symm
  have hnodup := ofAll_keys_ne (g.membersAmong files)
  match ofAll (g.membersAmong files),hmem,huniq,hnodup with
  | [],hmem,_,_ => simp at hmem
  | [h],_,huniq,_ => rw [huniq h (by simp)]
  | h :: h' :: rest,_,huniq,hnodup =>
    have he : h = h' := (huniq h (by simp)).trans (huniq h' (by simp)).symm
    have hne := List.rel_of_pairwise_cons hnodup (show h' ∈ h' :: rest by simp)
    rw [he] at hne
    exact absurd rfl hne

end ResourceGroup
end TypedResources

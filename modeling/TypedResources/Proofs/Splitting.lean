import TypedResources.General.List
import TypedResources.Proofs.Lowering
import TypedResources.Resource.Key

/-! How a path splits into its directory, its base and its culture. The key and the path as written
differ in slashes only. -/
namespace TypedResources

namespace Path

theorem splitLastDot_eq_none_iff (cs : List Char) : splitLastDot cs = none ↔ '.' ∉ cs := by
  unfold splitLastDot
  cases hd : cs.reverse.dropWhile (· != '.') with
  | nil =>
    rw [List.dropWhile_eq_nil_iff] at hd
    simp only [true_iff]
    intro hmem
    simpa using hd '.' (List.mem_reverse.mpr hmem)
  | cons d tail =>
    have hmem : '.' ∈ cs := by
      have hne : ¬ ∀ x ∈ cs.reverse, (x != '.') = true := by
        rw [← List.dropWhile_eq_nil_iff,hd]
        simp
      simpa using hne
    simp [hmem]

theorem not_mem_of_splitLastDot {cs before after : List Char}
    (h : splitLastDot cs = some (before,after)) : '.' ∉ after := by
  unfold splitLastDot at h
  split at h
  · simp at h
  · obtain ⟨-,rfl⟩ := Prod.mk.inj (Option.some.inj h)
    intro hmem
    simpa using List.mem_takeWhile_imp (List.mem_reverse.mp hmem)

/-- The last dot of a text is the one with no dot after it. -/
theorem splitLastDot_append {before after : List Char} (h : '.' ∉ after) :
    splitLastDot (before ++ '.' :: after) = some (before,after) := by
  have hmem : '.' ∉ after.reverse := fun hmem => h (List.mem_reverse.mp hmem)
  have hreverse : (before ++ '.' :: after).reverse = after.reverse ++ '.' :: before.reverse := by
    simp
  rw [splitLastDot,hreverse,List.takeWhile_append_cons_of_neg (by simp),
    List.dropWhile_append_cons_of_neg (by simp),List.takeWhile_bne_of_not_mem hmem,
    List.dropWhile_bne_of_not_mem hmem]
  simp

theorem slash_not_mem_baseName (path : List Char) : '/' ∉ baseName path := by
  intro hmem
  simpa using List.mem_takeWhile_imp (List.mem_reverse.mp hmem)

theorem slash_not_mem_stem (path : List Char) : '/' ∉ stem (baseName path) := by
  intro hmem
  refine slash_not_mem_baseName path ?_
  unfold stem at hmem
  split at hmem
  · rename_i before after hsplit
    split at hmem
    · exact hmem
    · rw [eq_of_splitLastDot hsplit]
      simp [hmem]
  · exact hmem

theorem stem_eq_nil_iff (base : List Char) : stem base = [] ↔ base = [] := by
  unfold stem
  split
  · rename_i before after hsplit
    have hbase := eq_of_splitLastDot hsplit
    split
    · rfl
    · rename_i hdots
      have hne : before ≠ [] := by
        rintro rfl
        exact hdots rfl
      simp [hne,hbase]
  · rfl

/-- A prefix that ends where a component begins. -/
def IsDirectory (dir : List Char) : Prop := dir = [] ∨ dir.getLast? = some '/'

theorem isDirectory_lead (path : List Char) : IsDirectory (lead path) := by
  unfold IsDirectory lead
  cases hd : path.reverse.dropWhile (· != '/') with
  | nil => exact Or.inl rfl
  | cons c rest =>
    have hc := List.head?_dropWhile_not (· != '/') path.reverse
    rw [hd] at hc
    refine Or.inr ?_
    simpa using hc

end Path

open TypedResources.Path Unicode

theorem weight_dropWhile_slash (cs : List Char) :
    ((cs.dropWhile (· == '/')).map weight).sum = (cs.map weight).sum := by
  induction cs with
  | nil => rfl
  | cons c rest ih =>
    by_cases hc : c = '/'
    · simp [hc,ih,weight]
    · simp [hc]

theorem weight_dirName (path : List Char) :
    ((dirName path).map weight).sum = ((lead path).map weight).sum := by
  unfold dirName
  split
  · rfl
  · rw [List.map_reverse,List.sum_reverse,weight_dropWhile_slash,List.map_reverse,List.sum_reverse]

/-- Joining a component without slashes puts it behind a directory that is no heavier. -/
theorem exists_join_eq (dir : List Char) {component : List Char} (h : '/' ∉ component) :
    ∃ dir', join dir component = dir' ++ component ∧ IsDirectory dir' ∧
      (dir'.map weight).sum = (dir.map weight).sum := by
  have hhead : component.head? ≠ some '/' := fun hc => h (List.mem_of_mem_head? hc)
  unfold join
  rw [if_neg hhead]
  split
  · rename_i hdir
    exact ⟨dir,rfl,hdir,rfl⟩
  · exact ⟨dir ++ ['/'],by simp,Or.inr (by simp),by simp [weight]⟩

namespace Key

theorem mem_of_isCulture {cs : List Char} (h : isCulture cs = true) :
    ∀ c ∈ cs, isAsciiLetter c = true ∨ c = '-' ∨ c = '\n' := by
  unfold isCulture at h
  split at h <;> simp_all

/-- The character, or `x` in place of a letter. -/
def shape (c : Char) : Char := if isAsciiLetter c then 'x' else c

theorem shape_eq_x_iff (c : Char) : shape c = 'x' ↔ isAsciiLetter c = true := by
  unfold shape
  split
  · simp [*]
  · rename_i hc
    refine iff_of_false ?_ hc
    rintro rfl
    exact hc (by decide)

theorem shape_eq_iff (mark : Char) (h : isAsciiLetter mark = false) (c : Char) :
    shape c = mark ↔ c = mark := by
  unfold shape
  split
  · rename_i hc
    refine iff_of_false ?_ ?_
    · rintro rfl
      exact absurd h (by decide)
    · rintro rfl
      rw [h] at hc
      exact absurd hc (by decide)
  · rfl

/-- Cultures are told by their shape. -/
theorem isCulture_iff (cs : List Char) : isCulture cs = true ↔
    cs.map shape ∈ ["xx".toList,"xx\n".toList,"xx-xx".toList,"xx-xx\n".toList] := by
  have hhyphen := shape_eq_iff '-' (by decide)
  have hfeed := shape_eq_iff '\n' (by decide)
  constructor
  · intro h
    unfold isCulture at h
    split at h <;> simp_all [shape_eq_x_iff]
  · intro h
    simp only [List.mem_cons,List.not_mem_nil,or_false,String.reduceToList,List.map_eq_cons_iff,
      List.map_eq_nil_iff,shape_eq_x_iff,hhyphen,hfeed,Char.isValue,existsAndEq,exists_eq_right,
      exists_eq_right_right,true_and] at h
    rcases h with ⟨a,b,rfl,ha,hb⟩ | ⟨a,b,rfl,ha,hb⟩ | ⟨a,b,c,d,rfl,ha,hb,hc,hd⟩ |
      ⟨a,b,c,d,rfl,ha,hb,hc,hd⟩
    · simp [isCulture,ha,hb]
    · simp [isCulture,ha,hb]
    · simp [isCulture,ha,hb,hc,hd]
    · simp [isCulture,ha,hb,hc,hd]

theorem slash_not_mem_of_isCulture {cs : List Char} (h : isCulture cs = true) : '/' ∉ cs :=
  fun hmem => absurd (mem_of_isCulture h '/' hmem) (by decide)

/-- Without a dot in the component, the last dot stands in the directory, before its last slash. -/
theorem slash_mem_of_splitLastDot {dir component before after : List Char}
    (hdir : IsDirectory dir) (hdot : '.' ∉ component)
    (h : splitLastDot (dir ++ component) = some (before,after)) : '/' ∈ after := by
  have hsplit := eq_of_splitLastDot h
  rcases hdir with rfl | hlast
  · exact absurd (by simp [show component = before ++ '.' :: after from hsplit]) hdot
  · obtain ⟨outer,rfl⟩ := List.getLast?_eq_some_iff.mp hlast
    rw [List.append_assoc] at hsplit
    rcases List.append_eq_append_iff.mp hsplit with ⟨xs,-,hxs⟩ | ⟨xs,-,hxs⟩
    · have hmem : '.' ∈ ['/'] ++ component := by simp [hxs]
      exact absurd (by simpa using hmem) hdot
    · have hmem : '/' ∈ '.' :: after := by simp [hxs]
      simpa using hmem

/-- A culture is stripped from the component after a directory. -/
theorem stripCulture_append {dir : List Char} (hdir : IsDirectory dir) (component : List Char) :
    stripCulture (dir ++ component) = dir ++ stripCulture component := by
  cases hs : splitLastDot component with
  | some parts =>
    obtain ⟨before,after⟩ := parts
    have hwhole : splitLastDot (dir ++ component) = some (dir ++ before,after) := by
      rw [eq_of_splitLastDot hs,← List.append_assoc]
      exact splitLastDot_append (not_mem_of_splitLastDot hs)
    simp only [stripCulture,hs,hwhole]
    split <;> rfl
  | none =>
    have hdot := (splitLastDot_eq_none_iff component).mp hs
    cases hw : splitLastDot (dir ++ component) with
    | none => simp only [stripCulture,hs,hw]
    | some parts =>
      obtain ⟨before,after⟩ := parts
      have hslash := slash_mem_of_splitLastDot hdir hdot hw
      have hculture : isCulture after = false := by
        cases hc : isCulture after with
        | false => rfl
        | true => exact absurd hslash (slash_not_mem_of_isCulture hc)
      simp [stripCulture,hs,hw,hculture]

end Key
end TypedResources

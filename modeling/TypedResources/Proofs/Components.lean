import Mathlib.Data.List.DropRight
import TypedResources.General.List
import TypedResources.Proofs.Splitting
import TypedResources.Resource.Naming

/-! Default names by components. A resource has them exactly when the components of the project
directory are the front of those of the directory that the resource lies in, and then they are made
of the components in between. -/
namespace TypedResources

namespace Path

def componentsOf (path : List Char) : List (List Char) := (path.splitOn '/').filter (· ≠ [])

def Proper (cs : List (List Char)) : Prop := ∀ c ∈ cs, c ≠ [] ∧ '/' ∉ c

def slashed (cs : List (List Char)) : List Char := cs.flatMap fun c => c ++ ['/']

theorem slashed_append (cs ds : List (List Char)) :
    slashed (cs ++ ds) = slashed cs ++ slashed ds := by
  simp [slashed]

theorem slashed_concat (cs : List (List Char)) (c : List Char) :
    slashed (cs ++ [c]) = slashed cs ++ c ++ ['/'] := by
  simp [slashed]

theorem slashed_eq_nil_iff {cs : List (List Char)} : slashed cs = [] ↔ cs = [] := by
  cases cs <;> simp [slashed]

theorem proper_pushComponent {stack : List (List Char)} (h : Proper stack) {c : List Char}
    (hc : '/' ∉ c) : Proper (pushComponent stack c) := by
  unfold pushComponent
  split
  · exact h
  · rename_i hkept
    rw [not_or] at hkept
    split
    · exact fun d hd => h d (List.mem_of_mem_tail hd)
    · exact List.forall_mem_cons.mpr ⟨⟨hkept.1,hc⟩,h⟩

theorem proper_components (path : List Char) : Proper (components path) := by
  have hfold : ∀ pieces stack : List (List Char), (∀ c ∈ pieces, '/' ∉ c) → Proper stack →
      Proper (pieces.foldl pushComponent stack) := by
    intro pieces
    induction pieces with
    | nil => exact fun _ _ h => h
    | cons c pieces ih =>
      intro stack hpieces h
      exact ih _ (fun d hd => hpieces d (by simp [hd]))
        (proper_pushComponent h (hpieces c (by simp)))
  have hstack := hfold (path.splitOn '/') [] (fun c hc => List.not_mem_of_mem_splitOn hc)
    (by simp [Proper])
  exact fun c hc => hstack c (List.mem_reverse.mp hc)

/-- The text of a path of proper components names them. -/
theorem componentsOf_text {cs : List (List Char)} (h : Proper cs) :
    componentsOf ('/' :: ['/'].intercalate cs) = cs := by
  cases cs with
  | nil => rfl
  | cons c rest =>
    have hslash : ∀ d ∈ c :: rest, '/' ∉ d := fun d hd => (h d hd).2
    have hkept : (c :: rest).filter (· ≠ []) = c :: rest := by
      rw [List.filter_eq_self]
      intro d hd
      simpa using (h d hd).1
    rw [componentsOf,List.splitOn_cons_eq_if_modifyHead,if_pos (by simp),
      List.splitOn_intercalate '/' hslash (by simp),List.filter_cons_of_neg (by simp),hkept]

theorem absolute_eq {current path : List Char} (h : ¬ ['/','/'] <+: absolute current path) :
    absolute current path = '/' :: ['/'].intercalate (componentsOf (absolute current path)) ∧
      Proper (componentsOf (absolute current path)) := by
  have hproper := proper_components (join current path)
  have htext : absolute current path =
      '/' :: ['/'].intercalate (components (join current path)) := by
    unfold absolute Absolute.toText Absolute.ofText at h ⊢
    split
    · rename_i htwo
      rw [if_pos htwo] at h
      exact absurd (List.prefix_append _ _) h
    · rfl
  rw [htext,componentsOf_text hproper]
  exact ⟨rfl,hproper⟩

theorem intercalate_slash (cs : List (List Char)) (c : List Char) :
    ['/'].intercalate (cs ++ [c]) = slashed cs ++ c := List.intercalate_concat '/' cs c

theorem getLast?_ne_slash {c : List Char} (hne : c ≠ []) (h : '/' ∉ c) (front : List Char) :
    (front ++ c).getLast? ≠ some '/' := by
  rw [List.getLast?_append_of_ne_nil _ hne]
  exact fun hlast => h (List.mem_of_getLast? hlast)

theorem withEndSlash_text {cs : List (List Char)} (h : Proper cs) :
    withEndSlash ('/' :: ['/'].intercalate cs) = '/' :: slashed cs := by
  induction cs using List.reverseRecOn with
  | nil => rfl
  | append_singleton cs c ih =>
    obtain ⟨hne,hslash⟩ := h c (by simp)
    have hlast := getLast?_ne_slash hne hslash ('/' :: slashed cs)
    rw [List.cons_append] at hlast
    rw [intercalate_slash,withEndSlash,if_neg hlast,slashed_concat]
    simp

theorem lead_append {c : List Char} (h : '/' ∉ c) (front : List Char) :
    lead (front ++ '/' :: c) = front ++ ['/'] := by
  have hmem : '/' ∉ c.reverse := fun hmem => h (List.mem_reverse.mp hmem)
  have hreverse : (front ++ '/' :: c).reverse = c.reverse ++ '/' :: front.reverse := by simp
  rw [lead,hreverse,List.dropWhile_append_cons_of_neg (by simp),List.dropWhile_bne_of_not_mem hmem]
  simp

/-- What stands before the last slash, that slash included. -/
theorem lead_slashed {cs : List (List Char)} {c : List Char} (h : '/' ∉ c) :
    lead ('/' :: (slashed cs ++ c)) = '/' :: slashed cs := by
  induction cs using List.reverseRecOn with
  | nil => exact lead_append h []
  | append_singleton cs d _ =>
    have hlead := lead_append h ('/' :: (slashed cs ++ d))
    rw [slashed_concat]
    simpa using hlead

/-- The directory of a path, with a slash at its end, is what stands before the last component. -/
theorem withEndSlash_dirName {cs : List (List Char)} (hcs : Proper cs) {c : List Char}
    (h : '/' ∉ c) : withEndSlash (dirName ('/' :: (slashed cs ++ c))) = '/' :: slashed cs := by
  rw [dirName,lead_slashed h]
  induction cs using List.reverseRecOn with
  | nil => rfl
  | append_singleton cs d _ =>
    obtain ⟨hne,hslash⟩ := hcs d (by simp)
    have hsome : ¬ ('/' :: slashed (cs ++ [d])).all (· == '/') = true := by
      intro hall
      obtain ⟨e,he⟩ := List.exists_mem_of_ne_nil d hne
      have hmem : e ∈ '/' :: slashed (cs ++ [d]) := by simp [slashed,he]
      have heq : e = '/' := by simpa using List.all_eq_true.mp hall e hmem
      exact hslash (heq ▸ he)
    -- the last component does not end in a slash, so only the slash behind it is dropped
    have hdrop : ('/' :: slashed (cs ++ [d])).rdropWhile (· == '/') =
        '/' :: ['/'].intercalate (cs ++ [d]) := by
      have hend := getLast?_ne_slash hne hslash ('/' :: slashed cs)
      rw [slashed_concat,← List.cons_append,List.rdropWhile_concat_pos _ _ _ (by simp),
        intercalate_slash,List.rdropWhile_eq_self_iff]
      intro hcons hslash'
      rw [List.cons_append,List.getLast?_eq_some_getLast hcons] at hend
      exact hend (congrArg some (by simpa using hslash'))
    rw [List.rdropWhile] at hdrop
    rw [if_neg hsome,hdrop,withEndSlash_text hcs]

/-- Components are the front of a directory's exactly when their text is. -/
theorem slashed_prefix_iff {cs ds : List (List Char)} (hcs : Proper cs) (hds : Proper ds)
    {d : List Char} (hd : '/' ∉ d) : slashed cs <+: slashed ds ++ d ↔ cs <+: ds := by
  induction cs generalizing ds with
  | nil => simp [slashed]
  | cons c cs ih =>
    have hc := (hcs c (by simp)).2
    have hrest : Proper cs := fun e he => hcs e (by simp [he])
    have htext : slashed (c :: cs) = c ++ '/' :: slashed cs := by simp [slashed]
    rw [htext]
    cases ds with
    | nil => simpa [slashed] using List.append_cons_not_prefix hd _
    | cons e ds =>
      have he := (hds e (by simp)).2
      have htext' : slashed (e :: ds) ++ d = e ++ '/' :: (slashed ds ++ d) := by simp [slashed]
      rw [htext',List.append_cons_prefix_iff hc he,List.cons_prefix_cons,
        ih hrest fun a ha => hds a (by simp [ha])]

theorem below?_slashed {cs ds : List (List Char)} (hcs : Proper cs) (hds : Proper ds)
    {d : List Char} (hd : '/' ∉ d) :
    below? ('/' :: slashed cs) ('/' :: (slashed ds ++ d)) =
      if cs <+: ds then some (slashed (ds.drop cs.length) ++ d) else none := by
  have hiff : ('/' :: slashed cs).isPrefixOf ('/' :: (slashed ds ++ d)) = true ↔ cs <+: ds := by
    rw [List.isPrefixOf_iff_prefix,List.cons_prefix_cons,slashed_prefix_iff hcs hds hd]
    simp
  unfold below?
  by_cases hfront : cs <+: ds
  · rw [if_pos (hiff.mpr hfront),if_pos hfront]
    obtain ⟨es,rfl⟩ := hfront
    rw [slashed_append,List.append_assoc,← List.cons_append,List.drop_left,List.drop_left]
  · rw [if_neg fun h => hfront (hiff.mp h),if_neg hfront]

end Path

namespace Naming

open TypedResources.Path

/-- Components joined by dots, with dots for backslashes too. -/
def joined (cs : List (List Char)) : List Char :=
  (['.'].intercalate cs).map fun c => if c = '\\' then '.' else c

/-- The names of a resource, by the components of the project directory and its own. -/
structure NamedByComponents (root : String) (project resource : List (List Char))
    (name scope : Option String) : Prop where
  together : name.isSome = scope.isSome
  defined : name.isSome = true ↔
    (project <+: resource ∧ project ≠ resource) ∨ (project = [] ∧ resource = [])
  below : ∀ between last, resource = project ++ between ++ [last] →
    name = some (root ++ "." ++ String.ofList (joined (between ++ [last]))) ∧
    scope = some (if between = [] then root
      else root ++ "." ++ String.ofList ((joined between).rdropWhile (· == '.')))
  atRoot : project = [] → resource = [] → name = some root ∧ scope = some root

theorem dotted_of_not_mem {c : List Char} (h : '/' ∉ c) :
    dotted c = c.map fun d => if d = '\\' then '.' else d := by
  refine List.map_congr_left fun d hd => ?_
  have hne : d ≠ '/' := fun he => h (he ▸ hd)
  simp [hne]

theorem dotted_slashed {cs : List (List Char)} (h : Proper cs) {c : List Char} (hc : '/' ∉ c) :
    dotted (slashed cs ++ c) = joined (cs ++ [c]) := by
  rw [joined,List.intercalate_concat,List.map_append,← dotted_of_not_mem hc,dotted,List.map_append]
  congr 1
  induction cs with
  | nil => rfl
  | cons d cs ih =>
    have hd := dotted_of_not_mem (h d (by simp)).2
    rw [dotted] at hd
    have hrest := ih fun e he => h e (by simp [he])
    rw [slashed] at hrest ⊢
    rw [List.flatMap_cons,List.flatMap_cons,List.map_append,List.map_append,hrest,List.map_append,
      List.map_append,hd]
    rfl

/-- The dots at the end are dropped, be they put there for the last slash or not. -/
theorem dropEndDots_slashed {cs : List (List Char)} (h : Proper cs) (hne : cs ≠ []) :
    dropEndDots (dotted (slashed cs)) = (joined cs).rdropWhile (· == '.') := by
  obtain ⟨front,c,rfl⟩ := (List.eq_nil_or_concat' cs).resolve_left hne
  have hfront : Proper front := fun d hd => h d (by simp [hd])
  have hend : dotted (slashed (front ++ [c])) = joined (front ++ [c]) ++ ['.'] := by
    rw [← dotted_slashed hfront (h c (by simp)).2,slashed_concat,dotted,dotted]
    simp
  rw [hend]
  exact List.rdropWhile_concat_pos _ _ _ (by simp)

theorem qualify_of_ne_nil {relative : List Char} (h : relative ≠ []) (root : String)
    (tidy : List Char → List Char) :
    qualify root tidy relative = root ++ "." ++ String.ofList (tidy relative) := if_neg h

section Names

variable {current root project resource : String} {cs ds : List (List Char)} {d : List Char}
  (hproject : absolute current.toList project.toList = '/' :: ['/'].intercalate cs)
  (hresource : absolute current.toList resource.toList = '/' :: (slashed ds ++ d))
  (hcs : Proper cs) (hds : Proper ds) (hd : '/' ∉ d)
include hproject hresource hcs hds hd

theorem resourceName?_eq : resourceName? current root project resource =
    if cs <+: ds then some (qualify root dotted (slashed (ds.drop cs.length) ++ d)) else none := by
  rw [resourceName?,Naming.below?,hproject,hresource,withEndSlash_text hcs,
    below?_slashed hcs hds hd]
  split <;> rfl

theorem namespace?_eq : namespace? current root project resource =
    if cs <+: ds then
      some (qualify root (fun relative => dropEndDots (dotted relative))
        (slashed (ds.drop cs.length)))
    else none := by
  have hnil : '/' ∉ ([] : List Char) := List.not_mem_nil
  have hdir := below?_slashed hcs hds hnil
  rw [List.append_nil,List.append_nil] at hdir
  rw [namespace?,directoryBelow?,hproject,hresource,withEndSlash_text hcs,
    withEndSlash_dirName hds hd,hdir]
  split <;> rfl

end Names

/-- The root directory lies in no project directory but itself, where the root gives both names. -/
theorem namedByComponents_nil (root : String) (cs : List (List Char)) :
    NamedByComponents root cs [] (if cs = [] then some root else none)
      (if cs = [] then some root else none) where
  together := rfl
  defined := by by_cases h : cs = [] <;> simp [h]
  below := fun between last h => by simp at h
  atRoot := fun h _ => by simp [h]

/-- A component further down than the project directory gives the last part of a name. -/
theorem namedByComponents_concat (root : String) (cs : List (List Char)) {ds : List (List Char)}
    (hds : Proper ds) {d : List Char} (hne : d ≠ []) (hd : '/' ∉ d) :
    NamedByComponents root cs (ds ++ [d])
      (if cs <+: ds then some (qualify root dotted (slashed (ds.drop cs.length) ++ d)) else none)
      (if cs <+: ds then
        some (qualify root (fun relative => dropEndDots (dotted relative))
          (slashed (ds.drop cs.length)))
        else none) where
  together := by split <;> rfl
  defined := by
    have hiff : (cs <+: ds ++ [d] ∧ cs ≠ ds ++ [d]) ↔ cs <+: ds := by
      rw [List.prefix_concat_iff]
      refine ⟨fun h => h.1.resolve_left h.2,fun h => ⟨Or.inr h,fun he => ?_⟩⟩
      have hlength := h.length_le
      rw [he,List.length_append,List.length_singleton] at hlength
      omega
    rw [hiff]
    by_cases hfront : cs <+: ds <;> simp [hfront]
  below := by
    intro between last h
    obtain ⟨hdirs,hlast⟩ := List.append_inj' h rfl
    obtain rfl := hdirs
    obtain rfl : d = last := by simpa using hlast
    have hbetween : Proper between := fun c hc => hds c (by simp [hc])
    have hrelative : slashed between ++ d ≠ [] := by simp [hne]
    rw [if_pos (List.prefix_append cs between),if_pos (List.prefix_append cs between),
      List.drop_left,qualify_of_ne_nil hrelative,dotted_slashed hbetween hd]
    refine ⟨rfl,?_⟩
    by_cases hnil : between = []
    · rw [if_pos hnil,hnil]
      rfl
    · have hscope : slashed between ≠ [] := fun h => hnil (slashed_eq_nil_iff.mp h)
      rw [if_neg hnil,qualify_of_ne_nil hscope,dropEndDots_slashed hbetween hnil]
  atRoot := fun _ h => by simp at h

/-- Where absolute paths do not begin with two slashes, default names go by their components. -/
theorem names_by_components {current project resource : String}
    (hproject : ¬ ['/','/'] <+: absolute current.toList project.toList)
    (hresource : ¬ ['/','/'] <+: absolute current.toList resource.toList) (root : String) :
    NamedByComponents root (componentsOf (absolute current.toList project.toList))
      (componentsOf (absolute current.toList resource.toList))
      (resourceName? current root project resource)
      (namespace? current root project resource) := by
  obtain ⟨htext,hcs⟩ := absolute_eq hproject
  obtain ⟨htext',hes⟩ := absolute_eq hresource
  generalize componentsOf (absolute current.toList project.toList) = cs at *
  generalize componentsOf (absolute current.toList resource.toList) = es at *
  rcases List.eq_nil_or_concat' es with rfl | ⟨ds,d,rfl⟩
  · have hd : '/' ∉ ([] : List Char) := List.not_mem_nil
    have hroot : ∀ tidy, qualify root tidy [] = root := fun _ => rfl
    have hnamed := namedByComponents_nil root cs
    rw [resourceName?_eq htext htext' hcs hes hd,namespace?_eq htext htext' hcs hes hd]
    simpa [slashed,hroot] using hnamed
  · have hds : Proper ds := fun c hc => hes c (by simp [hc])
    obtain ⟨hne,hd⟩ := hes d (by simp)
    rw [intercalate_slash] at htext'
    rw [resourceName?_eq htext htext' hcs hds hd,namespace?_eq htext htext' hcs hds hd]
    exact namedByComponents_concat root cs hds hne hd

/-- Backslashes in names count as dots, and the dots and steps back in a path are gone before. -/
theorem main_named_by_components :
    ¬ ['/','/'] <+: absolute "/work".toList "proj/./x/..".toList ∧
      ¬ ['/','/'] <+: absolute "/work".toList "proj/ui\\/main.resx".toList ∧
      resourceName? "/work" "App" "proj/./x/.." "proj/ui\\/main.resx" =
        some "App.ui..main.resx" ∧
      Naming.namespace? "/work" "App" "proj/./x/.." "proj/ui\\/main.resx" = some "App.ui" := by
  have hproject : ¬ ['/','/'] <+: absolute "/work".toList "proj/./x/..".toList := by decide
  have hresource : ¬ ['/','/'] <+: absolute "/work".toList "proj/ui\\/main.resx".toList := by decide
  have hnamed := names_by_components hproject hresource "App"
  exact ⟨hproject,hresource,hnamed.below ["ui\\".toList] "main.resx".toList (by decide)⟩

end Naming
end TypedResources

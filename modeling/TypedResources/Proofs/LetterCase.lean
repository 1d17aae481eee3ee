import TypedResources.Proofs.Partition
import TypedResources.Proofs.Splitting

/-! What letter case means to grouping. The parts of a path are cut out of it in one way for capital
and small letters, so paths that differ in the case of the letters A to Z have one folded key, and
such lists of files fall into groups at the same places. -/
namespace TypedResources

open Unicode

namespace Path

theorem bne_slash_toLower : (· != '/') ∘ Char.toLower = (· != '/') :=
  funext (apply_toLower (f := (· != '/')) (by decide))

theorem beq_slash_toLower : (· == '/') ∘ Char.toLower = (· == '/') :=
  funext (apply_toLower (f := (· == '/')) (by decide))

theorem beq_dot_toLower : (· == '.') ∘ Char.toLower = (· == '.') :=
  funext (apply_toLower (f := (· == '.')) (by decide))

theorem toLower_eq_slash_iff (c : Char) : c.toLower = '/' ↔ c = '/' :=
  toLower_eq_iff '/' (by decide) c

theorem dot_mem_map_toLower_iff (cs : List Char) : '.' ∈ cs.map Char.toLower ↔ '.' ∈ cs := by
  simp [toLower_eq_iff '.' (by decide)]

theorem baseName_map_toLower (path : List Char) :
    baseName (path.map Char.toLower) = (baseName path).map Char.toLower := by
  rw [baseName,baseName,← List.map_reverse,List.takeWhile_map,bne_slash_toLower,List.map_reverse]

theorem lead_map_toLower (path : List Char) :
    lead (path.map Char.toLower) = (lead path).map Char.toLower := by
  rw [lead,lead,← List.map_reverse,List.dropWhile_map,bne_slash_toLower,List.map_reverse]

theorem dirName_map_toLower (path : List Char) :
    dirName (path.map Char.toLower) = (dirName path).map Char.toLower := by
  rw [dirName,dirName,lead_map_toLower,List.all_map,beq_slash_toLower,← List.map_reverse,
    List.dropWhile_map,beq_slash_toLower]
  split
  · rfl
  · exact List.map_reverse.symm

theorem splitLastDot_map_toLower (cs : List Char) :
    splitLastDot (cs.map Char.toLower) =
      (splitLastDot cs).map (Prod.map (List.map Char.toLower) (List.map Char.toLower)) := by
  cases hs : splitLastDot cs with
  | none =>
    have hdot := (splitLastDot_eq_none_iff cs).mp hs
    rw [← dot_mem_map_toLower_iff] at hdot
    exact (splitLastDot_eq_none_iff _).mpr hdot
  | some parts =>
    have hdot := not_mem_of_splitLastDot hs
    rw [← dot_mem_map_toLower_iff] at hdot
    rw [eq_of_splitLastDot hs,List.map_append,List.map_cons]
    exact splitLastDot_append hdot

theorem stem_map_toLower (base : List Char) :
    stem (base.map Char.toLower) = (stem base).map Char.toLower := by
  rw [stem,stem,splitLastDot_map_toLower]
  cases splitLastDot base with
  | none => rfl
  | some parts =>
    have hdots : (parts.1.map Char.toLower).all (· == '.') = parts.1.all (· == '.') := by
      rw [List.all_map,beq_dot_toLower]
    simp only [Option.map_some,Prod.map,hdots]
    split <;> rfl

theorem join_map_toLower (dir path : List Char) :
    join (dir.map Char.toLower) (path.map Char.toLower) = (join dir path).map Char.toLower := by
  have hslash (c : Option Char) : c.map Char.toLower = some '/' ↔ c = some '/' := by
    simp [Option.map_eq_some_iff,toLower_eq_slash_iff]
  simp only [join,List.head?_map,List.getLast?_map,hslash,List.map_eq_nil_iff]
  split
  · rfl
  · split <;> simp

end Path

namespace Key

open TypedResources.Path

theorem shape_toLower (c : Char) : shape c.toLower = shape c := apply_toLower (by decide) c

theorem isCulture_map_toLower (cs : List Char) :
    isCulture (cs.map Char.toLower) = isCulture cs := by
  have hshape : shape ∘ Char.toLower = shape := funext shape_toLower
  rw [Bool.eq_iff_iff,isCulture_iff,isCulture_iff,List.map_map,hshape]

theorem stripCulture_map_toLower (cs : List Char) :
    stripCulture (cs.map Char.toLower) = (stripCulture cs).map Char.toLower := by
  rw [stripCulture,stripCulture,splitLastDot_map_toLower]
  cases splitLastDot cs with
  | none => rfl
  | some parts =>
    simp only [Option.map_some,Prod.map,isCulture_map_toLower]
    split <;> rfl

theorem keyChars_map_toLower (path : List Char) :
    keyChars (path.map Char.toLower) = (keyChars path).map Char.toLower := by
  rw [keyChars,keyChars,dirName_map_toLower,baseName_map_toLower,stem_map_toLower,join_map_toLower,
    stripCulture_map_toLower]

/-- The texts are spelled alike, capital or small letters from A to Z apart. -/
def SpelledAlike (s t : String) : Prop := s.toList.map Char.toLower = t.toList.map Char.toLower

instance (s t : String) : Decidable (SpelledAlike s t) :=
  inferInstanceAs (Decidable (s.toList.map Char.toLower = t.toList.map Char.toLower))

theorem isResourcePath_eq_of_alike {p q : String} (h : SpelledAlike p q) :
    isResourcePath p = isResourcePath q := by
  rw [isResourcePath,isResourcePath,← lowerChars_map_toLower,h,lowerChars_map_toLower]

theorem folded_eq_of_alike {p q : String} (h : SpelledAlike p q) : folded p = folded q := by
  have hkeys : lowerChars (keyChars p.toList) = lowerChars (keyChars q.toList) := by
    rw [← lowerChars_map_toLower,← keyChars_map_toLower,h,keyChars_map_toLower,
      lowerChars_map_toLower]
  simp only [folded,ofPath,lower,String.toList_ofList,hkeys]

end Key

namespace ResourceGroup

/-- The files are in one group of the list. -/
def Together (files : List ResourceFile) (a b : ResourceFile) : Prop :=
  ∃ g ∈ ofAll files, a ∈ g.files ∧ b ∈ g.files

theorem together_iff {files : List ResourceFile} {a b : ResourceFile} (ha : a ∈ files)
    (hb : b ∈ files) : Together files a b ↔
      Key.isResourcePath a.path = true ∧ Key.isResourcePath b.path = true ∧
        Key.folded a.path = Key.folded b.path := by
  constructor
  · rintro ⟨g,hg,hag,hbg⟩
    exact ⟨isResourcePath_of_mem hg hag,isResourcePath_of_mem hg hbg,
      (folded_of_mem hg hag).trans (folded_of_mem hg hbg).symm⟩
  · rintro ⟨hpa,hpb,hkey⟩
    exact (exists_common_group_iff ha hb hpa hpb).mpr hkey

theorem together_places_iff {n : Nat} (files : Vector ResourceFile n) (i j : Fin n) :
    Together files.toList files[i] files[j] ↔ Key.isResourcePath files[i].path = true ∧
      Key.isResourcePath files[j].path = true ∧
        Key.folded files[i].path = Key.folded files[j].path :=
  together_iff (Vector.mem_toList_iff.mpr (Vector.getElem_mem i.isLt))
    (Vector.mem_toList_iff.mpr (Vector.getElem_mem j.isLt))

/-- In lists of files whose paths are spelled alike, place by place, resource files stand at the
same places, and the same places are in one group. -/
theorem grouped_alike_in_any_case {n : Nat} (files others : Vector ResourceFile n)
    (h : ∀ i : Fin n, Key.SpelledAlike files[i].path others[i].path) (i j : Fin n) :
    Key.isResourcePath files[i].path = Key.isResourcePath others[i].path ∧
      (Together files.toList files[i] files[j] ↔ Together others.toList others[i] others[j]) := by
  refine ⟨Key.isResourcePath_eq_of_alike (h i),?_⟩
  rw [together_places_iff,together_places_iff,Key.isResourcePath_eq_of_alike (h i),
    Key.isResourcePath_eq_of_alike (h j),Key.folded_eq_of_alike (h i),Key.folded_eq_of_alike (h j)]

/-- A file and its translation, with a capital sigma that is not at the end of a word. -/
def sigmaFiles : Vector ResourceFile 2 :=
  #v[.ofText "App/Σ1.resx" none,.ofText "aPP/σ1.de-AT.RESX" none]

def respelledFiles : Vector ResourceFile 2 :=
  #v[.ofText "aPp/Σ1.ResX" none,.ofText "APP/σ1.DE-at.resx" none]

theorem sigmaFiles_together : Together sigmaFiles.toList sigmaFiles[0] sigmaFiles[1] := by
  refine (together_places_iff sigmaFiles 0 1).mpr ⟨?_,?_,?_⟩
  · decide
  · decide
  · decide +kernel

theorem respelledFiles_grouped_alike :
    (∀ i : Fin 2, Key.SpelledAlike sigmaFiles[i].path respelledFiles[i].path) ∧
      Key.isResourcePath respelledFiles[0].path = true ∧
      Together respelledFiles.toList respelledFiles[0] respelledFiles[1] := by
  have h : ∀ i : Fin 2, Key.SpelledAlike sigmaFiles[i].path respelledFiles[i].path := by decide
  obtain ⟨hpath,htogether⟩ := grouped_alike_in_any_case sigmaFiles respelledFiles h 0 1
  have hsigma : Key.isResourcePath sigmaFiles[0].path = true := by decide
  exact ⟨h,hpath.symm.trans hsigma,htogether.mp sigmaFiles_together⟩

end ResourceGroup
end TypedResources

import TypedResources.Proofs.Extension

/-! What the key of a resource file is made of. It lies in the directory of the file, and its base
name depends on the base name of the file alone: the extension goes, and a culture segment in front
of it. So a neutral file and its translations have one key, whatever their directory is called. -/
namespace TypedResources

namespace Path

/-- What follows a directory is the base name, if it is a single component. -/
theorem baseName_of_directory {dir base : List Char} (hdir : IsDirectory dir) (h : '/' ∉ base) :
    baseName (dir ++ base) = base := by
  rw [baseName_append dir h]
  rcases hdir with rfl | hlast
  · rfl
  · obtain ⟨outer,rfl⟩ := List.getLast?_eq_some_iff.mp hlast
    simp [baseName]

theorem lead_of_directory {dir base : List Char} (hdir : IsDirectory dir) (h : '/' ∉ base) :
    lead (dir ++ base) = dir := by
  have hwhole := lead_append_baseName (dir ++ base)
  rw [baseName_of_directory hdir h] at hwhole
  exact List.append_cancel_right hwhole

theorem dirName_congr {p q : List Char} (h : lead p = lead q) : dirName p = dirName q := by
  rw [dirName,dirName,h]

end Path

namespace Key

open TypedResources.Path

/-- The base name without its last five characters, or all of it if only dots come before these. -/
def bareName (base : List Char) : List Char :=
  if (base.take (base.length - 5)).all (· == '.') then base else base.take (base.length - 5)

/-- A dot and two letters behind it, perhaps a hyphen and two more, perhaps a line feed. -/
def IsSegment (cs : List Char) : Prop :=
  cs.map shape ∈ [".xx".toList,".xx\n".toList,".xx-xx".toList,".xx-xx\n".toList]

instance (cs : List Char) : Decidable (IsSegment cs) :=
  inferInstanceAs (Decidable (cs.map shape ∈ _))

/-- What is left of a text without the culture segment at its end, if there is one. -/
inductive Unsegmented (cs : List Char) : List Char → Prop
  | cut {front segment : List Char} (hsegment : IsSegment segment) (hcs : cs = front ++ segment) :
    Unsegmented cs front
  | whole (hnone : ∀ front segment, IsSegment segment → cs ≠ front ++ segment) : Unsegmented cs cs

theorem isSegment_iff (cs : List Char) :
    IsSegment cs ↔ ∃ culture, cs = '.' :: culture ∧ isCulture culture = true := by
  cases cs with
  | nil => simp [IsSegment]
  | cons c rest =>
    have hdot := shape_eq_iff '.' (by decide) c
    simp only [IsSegment,List.map_cons,List.mem_cons,List.not_mem_nil,or_false,isCulture_iff,
      List.cons.injEq]
    grind

theorem stripCulture_of_segment {front segment : List Char} (h : IsSegment segment) :
    stripCulture (front ++ segment) = front := by
  obtain ⟨culture,rfl,hculture⟩ := (isSegment_iff segment).mp h
  have hdot : '.' ∉ culture := fun hmem => absurd (mem_of_isCulture hculture '.' hmem) (by decide)
  simp [stripCulture,splitLastDot_append hdot,hculture]

theorem exists_segment {cs : List Char} (h : stripCulture cs ≠ cs) :
    ∃ segment, IsSegment segment ∧ cs = stripCulture cs ++ segment := by
  cases hs : splitLastDot cs with
  | none => exact absurd (by simp only [stripCulture,hs]) h
  | some parts =>
    obtain ⟨before,after⟩ := parts
    cases hc : isCulture after with
    | false => exact absurd (by simp [stripCulture,hs,hc]) h
    | true =>
      refine ⟨'.' :: after,(isSegment_iff _).mpr ⟨after,rfl,hc⟩,?_⟩
      simpa [stripCulture,hs,hc] using eq_of_splitLastDot hs

theorem stripCulture_eq_self_iff (cs : List Char) :
    stripCulture cs = cs ↔ ∀ front segment, IsSegment segment → cs ≠ front ++ segment := by
  constructor
  · rintro hsame front segment hsegment rfl
    rw [stripCulture_of_segment hsegment,List.self_eq_append_right] at hsame
    obtain ⟨culture,hculture,-⟩ := (isSegment_iff segment).mp hsegment
    simp [hsame] at hculture
  · intro hnone
    by_contra hne
    obtain ⟨segment,hsegment,hcs⟩ := exists_segment hne
    exact hnone _ segment hsegment hcs

theorem unsegmented_iff (cs rest : List Char) : Unsegmented cs rest ↔ stripCulture cs = rest := by
  constructor
  · intro h
    cases h with
    | cut hsegment hcs => rw [hcs,stripCulture_of_segment hsegment]
    | whole hnone => exact (stripCulture_eq_self_iff cs).mpr hnone
  · rintro rfl
    by_cases hsame : stripCulture cs = cs
    · rw [hsame]
      exact Unsegmented.whole ((stripCulture_eq_self_iff cs).mp hsame)
    · obtain ⟨segment,hsegment,hcs⟩ := exists_segment hsame
      exact Unsegmented.cut hsegment hcs

theorem stripCulture_isPrefix (cs : List Char) : stripCulture cs <+: cs := by
  by_cases hsame : stripCulture cs = cs
  · exact ⟨[],by rw [List.append_nil,hsame]⟩
  · obtain ⟨segment,-,hcs⟩ := exists_segment hsame
    exact ⟨segment,hcs.symm⟩

/-- Stripping the culture leaves the directory alone. -/
theorem stripCulture_join (dir : List Char) {component : List Char} (h : '/' ∉ component) :
    stripCulture (join dir component) = join dir (stripCulture component) := by
  have hhead {cs : List Char} (hcs : '/' ∉ cs) : cs.head? ≠ some '/' := fun hc =>
    hcs (List.mem_of_mem_head? hc)
  have hstripped : '/' ∉ stripCulture component := fun hmem =>
    h ((stripCulture_isPrefix component).subset hmem)
  rw [join,join,if_neg (hhead h),if_neg (hhead hstripped)]
  split
  · rename_i hdir
    exact stripCulture_append hdir component
  · have hdir : IsDirectory (dir ++ ['/']) := Or.inr (by simp)
    simpa using stripCulture_append hdir component

theorem bareName_append {front back : List Char} (h : IsExtension back) :
    bareName (front ++ back) = stem (front ++ back) := by
  obtain ⟨letters,rfl,hlength,hdot,-⟩ := exists_letters h
  have htake : (front ++ '.' :: letters).take ((front ++ '.' :: letters).length - 5) = front := by
    simp [hlength]
  rw [bareName,htake,stem,splitLastDot_append hdot]

/-- The key lies in the directory of the path, and the rest of it is made of the base name. -/
theorem ofPath_eq {path : String} (h : isResourcePath path = true) {rest : List Char}
    (hrest : Unsegmented (bareName (baseName path.toList)) rest) :
    ofPath path = String.ofList (join (dirName path.toList) rest) := by
  obtain ⟨front,back,hbase,hback⟩ := (isResourcePath_iff_baseName path).mp h
  rw [hbase,bareName_append hback,← hbase,unsegmented_iff] at hrest
  rw [ofPath,keyChars,stripCulture_join _ (slash_not_mem_stem _),hrest]

/-- A component that is not made of dots alone and does not end with a culture segment. -/
structure IsNeutralName (name : List Char) : Prop where
  component : '/' ∉ name
  named : ∃ c ∈ name, c ≠ '.'
  unsegmented : ∀ front segment, IsSegment segment → name ≠ front ++ segment

theorem slash_not_mem_of_isSegment {segment : List Char} (h : IsSegment segment) :
    '/' ∉ segment := by
  obtain ⟨culture,rfl,hculture⟩ := (isSegment_iff segment).mp h
  simp [slash_not_mem_of_isCulture hculture]

theorem bareName_of_named {name back : List Char} (hnamed : ∃ c ∈ name, c ≠ '.')
    (hback : IsExtension back) : bareName (name ++ back) = name := by
  obtain ⟨letters,rfl,-,hdot,-⟩ := exists_letters hback
  rw [bareName_append hback,stem,splitLastDot_append hdot]
  simpa using hnamed

theorem baseName_join (dir : List Char) {name : List Char} (h : '/' ∉ name) :
    baseName (join dir name) = name := by
  obtain ⟨outer,hjoin,houter,-⟩ := exists_join_eq dir h
  rw [hjoin,baseName_of_directory houter h]

def pathOf (dir name back : List Char) : String := String.ofList (dir ++ name ++ back)

/-- A file in a directory is a resource file if it ends with the extension, and its key lies in that
directory. -/
theorem key_in_directory {dir name rest back : List Char} (hdir : IsDirectory dir)
    (hslash : '/' ∉ name) (hnamed : ∃ c ∈ name, c ≠ '.') (hrest : Unsegmented name rest)
    (hback : IsExtension back) :
    isResourcePath (pathOf dir name back) = true ∧
      ofPath (pathOf dir name back) = String.ofList (join (dirName dir) rest) := by
  have htext : (pathOf dir name back).toList = dir ++ (name ++ back) := by simp [pathOf]
  have hpath : isResourcePath (pathOf dir name back) = true :=
    (isResourcePath_iff _).mpr ⟨dir ++ name,back,String.toList_ofList,hback⟩
  have hbase : '/' ∉ name ++ back := by simp [hslash,slash_not_mem_of_isExtension hback]
  have hbare : Unsegmented (bareName (baseName (pathOf dir name back).toList)) rest := by
    rwa [htext,baseName_of_directory hdir hbase,bareName_of_named hnamed hback]
  have hlead : lead (pathOf dir name back).toList = lead dir := by
    have hempty : lead (dir ++ []) = dir := lead_of_directory hdir (by simp)
    rw [List.append_nil] at hempty
    rw [htext,lead_of_directory hdir hbase,hempty]
  exact ⟨hpath,by rw [ofPath_eq hpath hbare,dirName_congr hlead]⟩

/-- The key of a resource file lies in the directory of the file, and the rest is made of the base
name alone: without its extension, unless that leaves only dots, and without the culture segment in
front of it. So in every directory a neutral file and its translations have one key, with the neutral
name for its base name. -/
theorem key_made_of_base_name :
    (∀ base, ∃! rest, Unsegmented (bareName base) rest) ∧
    (∀ path, isResourcePath path = true → ∀ rest,
      Unsegmented (bareName (baseName path.toList)) rest →
        ofPath path = String.ofList (join (dirName path.toList) rest)) ∧
    ∀ dir name segment back back', IsDirectory dir → IsNeutralName name → IsSegment segment →
      IsExtension back → IsExtension back' →
        isResourcePath (pathOf dir name back) = true ∧
        isResourcePath (pathOf dir (name ++ segment) back') = true ∧
        ofPath (pathOf dir name back) = ofPath (pathOf dir (name ++ segment) back') ∧
        baseName (ofPath (pathOf dir name back)).toList = name := by
  refine ⟨fun base => ?_,fun path h rest => ofPath_eq h,?_⟩
  · refine ⟨stripCulture (bareName base),(unsegmented_iff _ _).mpr rfl,fun rest h => ?_⟩
    exact ((unsegmented_iff _ _).mp h).symm
  · intro dir name segment back back' hdir hname hsegment hback hback'
    obtain ⟨hpath,hkey⟩ := key_in_directory hdir hname.component hname.named
      (.whole hname.unsegmented) hback
    have hslash : '/' ∉ name ++ segment := by
      simp [hname.component,slash_not_mem_of_isSegment hsegment]
    have hnamed : ∃ c ∈ name ++ segment, c ≠ '.' :=
      hname.named.imp fun c hc => ⟨List.mem_append_left _ hc.1,hc.2⟩
    obtain ⟨hpath',hkey'⟩ := key_in_directory hdir hslash hnamed (.cut hsegment rfl) hback'
    refine ⟨hpath,hpath',hkey.trans hkey'.symm,?_⟩
    rw [hkey,String.toList_ofList,baseName_join _ hname.component]

theorem isNeutralName_errorMessages : IsNeutralName "Errors.Messages".toList where
  component := by decide
  named := ⟨'E',by decide,by decide⟩
  unsegmented := (stripCulture_eq_self_iff _).mp (by decide)

/-- A dotted name in a directory that looks like a translation. -/
theorem key_of_errorMessages :
    IsDirectory "App.de/".toList ∧ IsNeutralName "Errors.Messages".toList ∧
    IsSegment ".pt-BR\n".toList ∧ IsExtension ".resx".toList ∧ IsExtension ".ResX".toList ∧
    isResourcePath "App.de/Errors.Messages.resx" = true ∧
    isResourcePath "App.de/Errors.Messages.pt-BR\n.ResX" = true ∧
    ofPath "App.de/Errors.Messages.resx" = ofPath "App.de/Errors.Messages.pt-BR\n.ResX" ∧
    baseName (ofPath "App.de/Errors.Messages.resx").toList = "Errors.Messages".toList := by
  have hdir : IsDirectory "App.de/".toList := Or.inr (by decide)
  have hname := isNeutralName_errorMessages
  have hsegment : IsSegment ".pt-BR\n".toList := by decide
  have hback : IsExtension ".resx".toList := by decide
  have hback' : IsExtension ".ResX".toList := by decide
  have hkeys := key_made_of_base_name.2.2 _ _ _ _ _ hdir hname hsegment hback hback'
  exact ⟨hdir,hname,hsegment,hback,hback',hkeys⟩

end Key
end TypedResources

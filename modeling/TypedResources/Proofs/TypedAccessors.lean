import TypedResources.General.List
import TypedResources.Proofs.Completeness
import TypedResources.Proofs.RoundTrip
import TypedResources.Proofs.Splitting

/-! The types of object accessors. A type is named inside the value of an entry, behind the first
semicolon. An accessor names it in its property and in its cast; when the value names none, as values
that are written in the document itself do, nothing stands there. -/
namespace TypedResources

namespace Entry

/-- The value names the type: it stands behind the first semicolon, up to a comma or a semicolon or
to the end. -/
def Embeds (e : Entry) (type : String) : Prop :=
  ∃ value ∈ e.value, ∃ path rest, value.toList = path ++ ';' :: (type.toList ++ rest) ∧
    ';' ∉ path ∧ (∀ c ∈ type.toList, c ≠ ';' ∧ c ≠ ',') ∧ ∀ c ∈ rest.head?, c = ';' ∨ c = ','

theorem secondSegment_eq_some_iff (value segment : String) :
    secondSegment value = some segment ↔ ∃ path after, value.toList = path ++ ';' :: after ∧
      ';' ∉ path ∧ segment.toList = after.takeWhile (· != ';') := by
  rw [secondSegment,Option.map_eq_some_iff]
  constructor
  · rintro ⟨piece,hpiece,rfl⟩
    rw [String.toList_ofList]
    exact (List.splitOn_getElem?_one _ _ _).mp hpiece
  · intro h
    exact ⟨segment.toList,(List.splitOn_getElem?_one _ _ _).mpr h,String.ofList_toList⟩

/-- An entry that is not text has the type that its value names. -/
theorem fullTypeName_eq_some_iff {e : Entry} (h : e.isText = false) (type : String) :
    e.fullTypeName = some type ↔ e.Embeds type := by
  have hcut : ∀ after : List Char, (after.takeWhile (· != ';')).takeWhile (· != ',') =
      after.takeWhile fun c => c != ';' && c != ',' := by
    intro after
    rw [List.takeWhile_takeWhile]
    simp only [Bool.and_comm,Bool.decide_and,Bool.decide_eq_true]
  rw [fullTypeName,h,if_neg Bool.false_ne_true,Option.map_eq_some_iff]
  simp only [embeddedType,Option.bind_eq_some_iff,secondSegment_eq_some_iff]
  constructor
  · rintro ⟨segment,⟨value,hvalue,path,after,hsplit,hpath,hsegment⟩,rfl⟩
    rw [hsegment,hcut]
    obtain ⟨rest,hafter,htype,hrest⟩ := (List.takeWhile_eq_iff _ after _).mp rfl
    refine ⟨value,hvalue,path,rest,?_,hpath,?_,?_⟩
    · rw [String.toList_ofList,← hafter,hsplit]
    · rw [String.toList_ofList]
      simpa using htype
    · simpa [Classical.or_iff_not_imp_left] using hrest
  · rintro ⟨value,hvalue,path,rest,hsplit,hpath,htype,hrest⟩
    refine ⟨String.ofList ((type.toList ++ rest).takeWhile (· != ';')),⟨value,hvalue,path,_,hsplit,
      hpath,String.toList_ofList⟩,?_⟩
    rw [String.toList_ofList,hcut]
    refine String.toList_inj.mp (String.toList_ofList.trans ?_)
    refine (List.takeWhile_eq_iff _ _ _).mpr ⟨rest,rfl,by simpa using htype,?_⟩
    simpa [Classical.or_iff_not_imp_left] using hrest

theorem Embeds.unique {e : Entry} (h : e.isText = false) {type other : String}
    (htype : e.Embeds type) (hother : e.Embeds other) : type = other :=
  Option.some.inj (((fullTypeName_eq_some_iff h type).mpr htype).symm.trans
    ((fullTypeName_eq_some_iff h other).mpr hother))

/-- What stands for the type of an entry that is not text: the type that its value names, and
nothing if it names none. -/
theorem fullTypeName_getD {e : Entry} (h : e.isText = false) :
    (e.fullTypeName.getD "" ≠ "" → e.Embeds (e.fullTypeName.getD "")) ∧
      (e.fullTypeName.getD "" = "" ↔ ∀ type, e.Embeds type → type = "") := by
  have hnamed := fullTypeName_eq_some_iff h
  cases hf : e.fullTypeName with
  | none =>
    refine ⟨fun hne => absurd rfl hne,iff_of_true rfl fun type htype => ?_⟩
    rw [← hnamed,hf] at htype
    cases htype
  | some found =>
    have hfound : e.Embeds found := (hnamed found).mp hf
    refine ⟨fun _ => hfound,fun hempty type htype => ?_,fun hall => hall found hfound⟩
    exact (htype.unique h hfound).trans hempty

end Entry

namespace AccessorClass

/-- Every named entry has its accessor, the lines of which are among those of the class. -/
theorem exists_accessor {scope : Option String} {style : Plumbing.Style} {entries : List Entry}
    {c : AccessorClass} (h : ofEntries scope style entries = .ok c) {e : Entry} (he : e ∈ entries)
    {name : String} (hname : e.accessorName? = some name) :
    ∃ a ∈ c.accessors, Accessor.ofEntry name e = .ok a ∧ a.lines c.style.shared <:+: c.lines := by
  obtain ⟨accessors,hmade,hc⟩ := Except.bind_eq_ok_iff.mp h
  obtain rfl := Except.ok.inj hc
  have hmem : (name,e) ∈ sortByName (named entries) := (mem_sortByName_named _).mpr ⟨he,hname⟩
  obtain ⟨a,ha,hentry⟩ := List.Forall₂.exists_of_mem (Except.forall₂_of_mapM hmade) hmem
  refine ⟨a,ha,hentry,?_⟩
  have hlines : a.lines style.shared <:+: accessors.flatMap (Accessor.lines style.shared) := by
    rw [List.flatMap_def]
    exact List.infix_of_mem_flatten (List.mem_map_of_mem ha)
  rw [lines,List.append_assoc,List.append_assoc,List.append_assoc]
  exact (hlines.trans (List.prefix_append _ _).isInfix).trans (List.suffix_append _ _).isInfix

theorem exists_object_accessor {scope : Option String} {style : Plumbing.Style}
    {entries : List Entry} {c : AccessorClass} (h : ofEntries scope style entries = .ok c)
    {e : Entry} (he : e ∈ entries) {name : String} (hname : e.accessorName? = some name)
    (hobject : e.isText = false) : .object name (e.fullTypeName.getD "") ∈ c.accessors ∧
      Accessor.objectProperty c.style.shared name (e.fullTypeName.getD "") <:+: c.lines := by
  obtain ⟨a,ha,hentry,hlines⟩ := exists_accessor h he hname
  rw [Accessor.ofEntry,hobject,if_neg Bool.false_ne_true] at hentry
  obtain rfl := Except.ok.inj hentry
  exact ⟨ha,hlines⟩

/-- The accessor of an entry that is not text names one type, in its property and in its cast: the one
that the value of the entry names behind its first semicolon. No type stands there exactly if the
value names none. Whatever document is read, its class is made unless an index is overlong. -/
theorem object_accessors_name_embedded_types {text : String} {entries : List Entry}
    (h : Resx.parse text = some entries) (scope : Option String) (style : Plumbing.Style)
    {e : Entry} (he : e ∈ entries) {name : String} (hname : e.accessorName? = some name)
    (hobject : e.isText = false) :
    (ofEntries scope style entries = .error .longIndex ∧ ∃ x ∈ entries, x.IsOverlong) ∨
      ∃ c typeName, ofEntries scope style entries = .ok c ∧ .object name typeName ∈ c.accessors ∧
        Accessor.objectProperty c.style.shared name typeName <:+: c.lines ∧
        (typeName ≠ "" → e.Embeds typeName) ∧
        (typeName = "" ↔ ∀ type, e.Embeds type → type = "") := by
  cases hc : ofEntries scope style entries with
  | error failure =>
    obtain ⟨rfl,hlong⟩ := (ofEntries_eq_error (clean_parse h) scope style failure).mp hc
    exact .inl ⟨rfl,hlong⟩
  | ok c =>
    obtain ⟨haccessor,hlines⟩ := exists_object_accessor hc he hname hobject
    obtain ⟨hnamed,hempty⟩ := Entry.fullTypeName_getD hobject
    exact .inr ⟨c,_,rfl,haccessor,hlines,hnamed,hempty⟩

/-- A value of a type other than text, written in the document itself. -/
def inlineSize : Entry := ⟨some "Size",some "10, 20",none,some "System.Drawing.Size"⟩

/-- A reference to a file, which names the type of what the file holds. -/
def logoFile : Entry := ⟨some "Logo",some "logo.png;Bitmap, Drawing",none,some "ResXFileRef"⟩

def drawingDocument : Resx.Document := ⟨none,[],.done,[(inlineSize,.done),(logoFile,.done)],[]⟩

def drawingText : String := String.ofList <|
  "<root><data name=\"Size\" type=\"System.Drawing.Size\">".toList ++
  ("<value>10, 20</value></data><data name=\"Logo\" type=\"ResXFileRef\">".toList ++
  "<value>logo.png;Bitmap, Drawing</value></data></root>".toList)

theorem parse_drawingText : Resx.parse drawingText = some [inlineSize,logoFile] := by
  have hentries : drawingDocument.entries = [inlineSize,logoFile] := rfl
  have hwell : drawingDocument.WellFormed := by
    refine ⟨fun name hname => by simp [drawingDocument] at hname,Markup.Written.isBlanks_nil,
      Markup.Written.isBlanks_nil,fun e he => ?_,fun x hx => ?_,List.nodup_nil⟩
    · exact Resx.isWritable_of_all ((by decide : ∀ e ∈ drawingDocument.entries,
        ∀ text ∈ [e.name,e.value,e.comment,e.type], ∀ s ∈ text,
          s.toList.all Markup.isChar = true) e he)
    · have hdone : x = .done := by simpa [drawingDocument,Resx.Document.noise] using hx
      exact hdone ▸ Resx.isNoise_done
  rw [← hentries]
  refine Resx.parse_write hwell ?_ ?_
  · unfold Resx.Document.Shallow
    decide
  · unfold drawingText
    rw [String.toList_ofList]
    decide +kernel

/-- A document of two entries that are not text: the value of one names no type. -/
theorem inlineSize_names_no_type :
    Resx.parse drawingText = some [inlineSize,logoFile] ∧
    inlineSize.accessorName? = some "Size" ∧ inlineSize.isText = false ∧
    logoFile.accessorName? = some "Logo" ∧ logoFile.isText = false ∧
    ∃ c, ofEntries none ⟨"Drawing","Drawing",false,true⟩ [inlineSize,logoFile] = .ok c ∧
      Accessor.objectProperty c.style.shared "Size" "" <:+: c.lines ∧
      Accessor.objectProperty c.style.shared "Logo" "Bitmap" <:+: c.lines := by
  have hsize : ¬ ∃ type, inlineSize.Embeds type := by
    rintro ⟨type,value,hvalue,path,rest,hsplit,-⟩
    obtain rfl := Option.some.inj hvalue
    have hmem : ';' ∈ "10, 20".toList := by simp [hsplit]
    exact absurd hmem (by decide)
  have hlogo : logoFile.Embeds "Bitmap" :=
    ⟨_,rfl,"logo.png".toList,", Drawing".toList,by decide,by decide,by simp,by simp⟩
  have hnamed : inlineSize.accessorName? = some "Size" ∧ logoFile.accessorName? = some "Logo" :=
    ⟨rfl,rfl⟩
  have hobject : inlineSize.isText = false ∧ logoFile.isText = false := by decide
  have hshort : ¬ ∃ x ∈ [inlineSize,logoFile], x.IsOverlong := by
    rintro ⟨x,hx,hlong⟩
    refine Entry.not_isOverlong_of_short (fun v hv => ?_) hlong
    simp only [List.mem_cons,List.not_mem_nil,or_false] at hx
    rcases hx with rfl | rfl <;> obtain rfl := Option.some.inj hv <;> decide
  obtain ⟨-,hlong⟩ | ⟨c,size,hc,-,hsizeLines,hsizeNamed,-⟩ :=
    object_accessors_name_embedded_types parse_drawingText none ⟨"Drawing","Drawing",false,true⟩
      (by simp) hnamed.1 hobject.1
  · exact absurd hlong hshort
  obtain ⟨-,hlong⟩ | ⟨c',logo,hc',-,hlogoLines,hlogoNamed,hlogoEmpty⟩ :=
    object_accessors_name_embedded_types parse_drawingText none ⟨"Drawing","Drawing",false,true⟩
      (by simp) hnamed.2 hobject.2
  · exact absurd hlong hshort
  obtain rfl : c = c' := Except.ok.inj (hc.symm.trans hc')
  have hempty : size = "" := by_contra fun hne => hsize ⟨size,hsizeNamed hne⟩
  have hfound : logo = "Bitmap" := by
    have hne : logo ≠ "" := fun he => absurd (hlogoEmpty.mp he "Bitmap" hlogo) (by decide)
    exact (hlogoNamed hne).unique hobject.2 hlogo
  rw [hempty] at hsizeLines
  rw [hfound] at hlogoLines
  exact ⟨parse_drawingText,hnamed.1,hobject.1,hnamed.2,hobject.2,c,hc,hsizeLines,hlogoLines⟩

end AccessorClass
end TypedResources

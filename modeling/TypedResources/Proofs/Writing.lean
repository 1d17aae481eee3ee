import TypedResources.Proofs.Markup.Documents

/-! Entries as they are written in a resource document. What is written is content of markup, which
means the entry. -/
namespace TypedResources
namespace Resx

open Markup Written

def escapeValue (c : Char) : List Char :=
  match c with
  | '"' => "&quot;".toList
  | '\'' => "&apos;".toList
  | c => escape c

def escapeAttribute (c : Char) : List Char :=
  match c with
  | '\t' => "&#9;".toList
  | '\n' => "&#10;".toList
  | c => escapeValue c

def writeField (name : String) (text : Option String) : List Char :=
  text.elim [] fun s =>
    ' ' :: (name.toList ++ ('=' :: '"' :: (s.toList.flatMap escapeAttribute ++ ['"'])))

def writeValue (value : Option String) : List Char :=
  value.elim [] fun s => "<value>".toList ++ (s.toList.flatMap escapeValue ++ "</value>".toList)

def writeEntry (e : Entry) : List Char :=
  "<data".toList ++ (writeField "name" e.name ++ (writeField "comment" e.comment ++
    (writeField "type" e.type ++ ('>' :: (writeValue e.value ++ "</data>".toList)))))

/-- All texts of the entry consist of characters that a document can hold. -/
def IsWritable (e : Entry) : Prop :=
  ∀ text ∈ [e.name,e.value,e.comment,e.type], ∀ s ∈ text, Clean s.toList

/-- A character is written by a reference, or it stands for itself. -/
theorem escape_cases (c : Char) :
    (∃ r : Reference, r.write = escape c ∧ r.char = c) ∨
      (escape c = [c] ∧ c ≠ '<' ∧ c ≠ '&' ∧ c ≠ '>' ∧ c ≠ '\r') := by
  unfold escape
  split
  · exact .inl ⟨.entity "amp" '&' rfl,by simp [Reference.write,Reference.inner],rfl⟩
  · exact .inl ⟨.entity "lt" '<' rfl,by simp [Reference.write,Reference.inner],rfl⟩
  · exact .inl ⟨.entity "gt" '>' rfl,by simp [Reference.write,Reference.inner],rfl⟩
  · exact .inl ⟨.decimal ['1','3'] '\r' (by decide),by simp [Reference.write,Reference.inner],rfl⟩
  · exact .inr (by simp_all)

theorem escapeValue_cases (c : Char) :
    (∃ r : Reference, r.write = escapeValue c ∧ r.char = c) ∨
      (escapeValue c = [c] ∧ c ≠ '<' ∧ c ≠ '&' ∧ c ≠ '>' ∧ c ≠ '"' ∧ c ≠ '\r') := by
  unfold escapeValue
  split
  · exact .inl ⟨.entity "quot" '"' rfl,by simp [Reference.write,Reference.inner],rfl⟩
  · exact .inl ⟨.entity "apos" '\'' rfl,by simp [Reference.write,Reference.inner],rfl⟩
  · rename_i hquote _
    refine (escape_cases c).imp id fun hplain => ?_
    obtain ⟨hwrite,hopen,hamp,hclose,hreturn⟩ := hplain
    exact ⟨hwrite,hopen,hamp,hclose,hquote,hreturn⟩

/-- Every character is written by a reference to it, or as itself where it can stand in any place. -/
def Spells (f : Char → List Char) : Prop :=
  ∀ c, (∃ r : Reference, r.write = f c ∧ r.char = c) ∨ (f c = [c] ∧ c ≠ '<' ∧ c ≠ '&' ∧ c ≠ '>')

theorem spells_escape : Spells escape := fun c =>
  (escape_cases c).imp id fun h => ⟨h.1,h.2.1,h.2.2.1,h.2.2.2.1⟩

theorem spells_escapeValue : Spells escapeValue := fun c =>
  (escapeValue_cases c).imp id fun h => ⟨h.1,h.2.1,h.2.2.1,h.2.2.2.1⟩

theorem escapeAttribute_cases (c : Char) :
    (∃ r : Reference, r.write = escapeAttribute c ∧ r.char = c) ∨
      (escapeAttribute c = [c] ∧ c ≠ '"' ∧ c ≠ '<' ∧ c ≠ '&' ∧ (Reader.isBlank c → c = ' ')) := by
  unfold escapeAttribute
  split
  · exact .inl ⟨.decimal ['9'] '\t' (by decide),by simp [Reference.write,Reference.inner],rfl⟩
  · exact .inl ⟨.decimal ['1','0'] '\n' (by decide),by simp [Reference.write,Reference.inner],rfl⟩
  · rename_i htab hfeed
    refine (escapeValue_cases c).imp id fun hplain => ?_
    obtain ⟨hwrite,hopen,hamp,-,hquote,hreturn⟩ := hplain
    refine ⟨hwrite,hquote,hopen,hamp,fun hblank => ?_⟩
    simp only [Reader.isBlank,Bool.or_eq_true,decide_eq_true_eq] at hblank
    rcases hblank with ((hspace | heq) | heq) | heq
    · exact hspace
    · exact absurd heq htab
    · exact absurd heq hfeed
    · exact absurd heq hreturn

theorem exists_parts (cs : List Char) : ∃ parts : List (Part '"'),
    parts.flatMap (·.write) = cs.flatMap escapeAttribute ∧ parts.map (·.char) = cs := by
  induction cs with
  | nil => exact ⟨[],rfl,rfl⟩
  | cons c rest ih =>
    obtain ⟨parts,hwrite,hchar⟩ := ih
    rcases escapeAttribute_cases c with ⟨r,hr,hc⟩ | ⟨hc,hquote,hopen,hamp,hblank⟩
    · refine ⟨.reference r :: parts,?_,?_⟩
      · rw [List.flatMap_cons,List.flatMap_cons,hwrite,← hr]
        rfl
      · rw [List.map_cons,hchar,Part.char,hc]
    · refine ⟨.plain c ⟨hquote,hopen,hamp⟩ :: parts,?_,?_⟩
      · rw [List.flatMap_cons,List.flatMap_cons,hwrite,hc]
        rfl
      · have hsame : (if Reader.isBlank c then ' ' else c) = c := by
          split
          · rename_i hyes
            exact (hblank hyes).symm
          · rfl
        rw [List.map_cons,hchar,Part.char,hsame]

/-- Content without tags that is written so and shows a text. -/
structure Shows (c : Content) (written shown : List Char) : Prop where
  write : c.write = written
  text : (Node.innerTexts (c.nodes [])).toList = shown
  separate : c.Separate
  flat : c.height = 0

/-- Characters that stand for themselves in any place. -/
def IsBare (cs : List Char) : Prop := ∀ c ∈ cs, c ≠ '<' ∧ c ≠ '&' ∧ c ≠ '>'

theorem IsBare.isText {cs : List Char} (h : IsBare cs) (hne : cs ≠ []) : IsText cs where
  nonempty := hne
  free c hc := ⟨(h c hc).1,(h c hc).2.1⟩
  within hin := (h '>' (hin.subset (by decide))).2.2 rfl

theorem Shows.behind {rest : Content} {written shown run : List Char} (h : Shows rest written shown)
    (hstart : rest.startsWithText = false) (hrun : IsBare run) :
    ∃ c, Shows c (run ++ written) (run ++ shown) := by
  by_cases hne : run = []
  · exact ⟨rest,by rwa [hne]⟩
  · refine ⟨.atom (.text run (hrun.isText hne)) rest,?_,?_,⟨fun _ => hstart,h.separate⟩,h.flat⟩
    · rw [Content.write,h.write]
      rfl
    · rw [Content.nodes,Node.innerTexts_append,String.toList_append,h.text]
      simp [Atom.nodes,Node.innerTexts,Node.innerText]

theorem Shows.reference {rest : Content} {written shown : List Char} (h : Shows rest written shown)
    (r : Reference) : Shows (.atom (.reference r) rest) (r.write ++ written) (r.char :: shown) := by
  refine ⟨?_,?_,⟨fun hno => by simp [Atom.isText] at hno,h.separate⟩,h.flat⟩
  · rw [Content.write,h.write]
    rfl
  · rw [Content.nodes,Node.innerTexts_append,String.toList_append,h.text]
    simp [Atom.nodes,Node.innerTexts,Node.innerText]

/-- The characters up to the first reference are one piece, so they are split off. -/
theorem exists_shows_behind {f : Char → List Char} (hf : Spells f) (cs : List Char) :
    ∃ run rest written shown, IsBare run ∧ rest.startsWithText = false ∧
      Shows rest written shown ∧ run ++ written = cs.flatMap f ∧ run ++ shown = cs := by
  induction cs with
  | nil =>
    exact ⟨[],.done,[],[],fun c hc => by simp at hc,rfl,⟨rfl,rfl,trivial,rfl⟩,rfl,rfl⟩
  | cons c cs ih =>
    obtain ⟨run,rest,written,shown,hrun,hstart,hshows,hwritten,hshown⟩ := ih
    rcases hf c with ⟨r,hr,hc⟩ | ⟨hc,hplain⟩
    · obtain ⟨inner,hinner⟩ := hshows.behind hstart hrun
      refine ⟨[],.atom (.reference r) inner,_,_,fun c hc => by simp at hc,rfl,
        hinner.reference r,?_,?_⟩
      · rw [List.nil_append,hr,hwritten,List.flatMap_cons]
      · rw [List.nil_append,hc,hshown]
    · refine ⟨c :: run,rest,written,shown,?_,hstart,hshows,?_,?_⟩
      · exact List.forall_mem_cons.mpr ⟨hplain,hrun⟩
      · rw [List.cons_append,hwritten,List.flatMap_cons,hc]
        rfl
      · rw [List.cons_append,hshown]

theorem exists_shows {f : Char → List Char} (hf : Spells f) (cs : List Char) :
    ∃ c, Shows c (cs.flatMap f) cs := by
  obtain ⟨run,rest,written,shown,hrun,hstart,hshows,hwritten,hshown⟩ := exists_shows_behind hf cs
  obtain ⟨c,hc⟩ := hshows.behind hstart hrun
  rw [hwritten,hshown] at hc
  exact ⟨c,hc⟩

def nameOf (s : String) (h : IsNamePart s.toList) (hshort : byteLength s.toList ≤ maxNameBytes) :
    Name := ⟨none,s.toList,fun q hq => by simp at hq,h,hshort⟩

theorem write_nameOf (s : String) (h : IsNamePart s.toList)
    (hshort : byteLength s.toList ≤ maxNameBytes) : (nameOf s h hshort).write = s.toList := rfl

theorem exists_attribute (n : Name) (s : String) : ∃ a : Written.Attribute,
    a.write = ' ' :: (n.write ++ ('=' :: '"' :: (s.toList.flatMap escapeAttribute ++ ['"']))) ∧
      a.name = n ∧ a.value = s := by
  obtain ⟨parts,hwrite,hchar⟩ := exists_parts s.toList
  have hlead : IsBlanks [' '] := by simp [IsBlanks,Reader.isBlank]
  refine ⟨⟨[' '],n,[],[],'"',parts,⟨by simp,hlead⟩,⟨isBlanks_nil,isBlanks_nil⟩,.inl rfl⟩,?_,rfl,?_⟩
  · rw [Written.Attribute.write,hwrite]
    rfl
  · rw [Written.Attribute.value,hchar,String.ofList_toList]

def present (fields : List (Name × Option String)) : List (Name × String) :=
  fields.filterMap fun f => f.2.map fun s => (f.1,s)

theorem present_sublist (fields : List (Name × Option String)) :
    List.Sublist ((present fields).map (·.1)) (fields.map (·.1)) := by
  induction fields with
  | nil => exact List.Sublist.refl []
  | cons f rest ih =>
    obtain ⟨n,text⟩ := f
    cases text with
    | none => exact ih.cons n
    | some s => exact ih.cons_cons n

theorem exists_attributes (fields : List (Name × Option String)) :
    ∃ attributes : List Written.Attribute,
      attributes.flatMap (·.write) = fields.flatMap (fun f => writeField f.1.shown f.2) ∧
      attributes.map (fun a => (a.name,a.value)) = present fields := by
  induction fields with
  | nil => exact ⟨[],rfl,rfl⟩
  | cons f rest ih =>
    obtain ⟨attributes,hwrite,hmap⟩ := ih
    obtain ⟨n,text⟩ := f
    cases text with
    | none => exact ⟨attributes,hwrite,hmap⟩
    | some s =>
      obtain ⟨a,ha,hname,hvalue⟩ := exists_attribute n s
      refine ⟨a :: attributes,?_,?_⟩
      · rw [List.flatMap_cons,List.flatMap_cons,hwrite,ha,writeField,Option.elim_some,Name.shown,
          String.toList_ofList]
      · rw [List.map_cons,hmap,hname,hvalue]
        rfl

def rootName : Name := nameOf "root" (.of_all rfl (by decide)) (by decide)

def dataName : Name := nameOf "data" (.of_all rfl (by decide)) (by decide)

def valueName : Name := nameOf "value" (.of_all rfl (by decide)) (by decide)

def nameName : Name := nameOf "name" (.of_all rfl (by decide)) (by decide)

def commentName : Name := nameOf "comment" (.of_all rfl (by decide)) (by decide)

def typeName : Name := nameOf "type" (.of_all rfl (by decide)) (by decide)

def plainTag (n : Name) : Tag := ⟨n,[],[],isBlanks_nil⟩

theorem isPlain_plainTag {n : Name} (h : n.qualifier = none) : (plainTag n).IsPlain :=
  ⟨h,fun a ha => by simp [plainTag] at ha,List.nodup_nil⟩

/-- An element without attributes, with content in it and behind it. -/
def enclosed (n : Name) (c rest : Content) : Content :=
  .element (plainTag n) c [] isBlanks_nil rest

theorem write_enclosed (n : Name) (c rest : Content) : (enclosed n c rest).write =
    '<' :: (n.write ++ ('>' :: (c.write ++ ('<' :: '/' :: (n.write ++ ('>' :: rest.write)))))) := by
  simp [enclosed,Content.write,Tag.write,plainTag]

theorem nodes_enclosed {n : Name} (h : n.qualifier = none) (c rest : Content) :
    (enclosed n c rest).nodes [] = .element ⟨none,n.shown⟩ [] (c.nodes []) :: rest.nodes [] := by
  have hplain := isPlain_plainTag h
  rw [enclosed,Content.nodes,hplain.scope_eq,hplain.expanded_eq,hplain.shown_eq]
  rfl

section Enclosed

variable {c : Content} {written shown : List Char}

theorem Shows.bound_enclosed (h : Shows c written shown) {n : Name} (hn : n.qualifier = none)
    {rest : Content} (hrest : rest.Bound []) : (enclosed n c rest).Bound [] := by
  have hplain := isPlain_plainTag hn
  refine ⟨hplain.bound [],?_,hrest⟩
  rw [hplain.scope_eq]
  exact (c.bound_of_flat h.flat []).1

theorem Shows.identities_enclosed (h : Shows c written shown) {n : Name} (hn : n.qualifier = none)
    (rest : Content) : (enclosed n c rest).identities = rest.identities := by
  rw [enclosed,Content.identities,(isPlain_plainTag hn).identities_eq,
    (c.bound_of_flat h.flat []).2.1]
  rfl

theorem Shows.height_enclosed (h : Shows c written shown) (n : Name) (rest : Content) :
    (enclosed n c rest).height = max 1 rest.height := by
  rw [enclosed,Content.height,h.flat]

end Enclosed

def fieldsOf (e : Entry) : List (Name × Option String) :=
  [(nameName,e.name),(commentName,e.comment),(typeName,e.type)]

/-- The tag of an entry. -/
theorem exists_tag (e : Entry) : ∃ t : Tag, t.IsPlain ∧ t.name = dataName ∧
    t.write = dataName.write ++ (fieldsOf e).flatMap (fun f => writeField f.1.shown f.2) ∧
    t.shown [] = (present (fieldsOf e)).map fun f => ⟨⟨none,f.1.shown⟩,f.2⟩ := by
  obtain ⟨attributes,hwrite,hmap⟩ := exists_attributes (fieldsOf e)
  have hnames : List.Sublist (attributes.map (·.name)) [nameName,commentName,typeName] := by
    have hsame : attributes.map (·.name) = (present (fieldsOf e)).map (·.1) := by
      rw [← hmap,List.map_map]
      rfl
    rw [hsame]
    exact present_sublist (fieldsOf e)
  have hplain : Tag.IsPlain ⟨dataName,attributes,[],isBlanks_nil⟩ := by
    refine ⟨rfl,fun a ha => ?_,?_⟩
    · have hall : ∀ n ∈ [nameName,commentName,typeName],
          n.qualifier = none ∧ n.localName ≠ "xmlns".toList := by decide
      exact hall a.name (hnames.subset (List.mem_map_of_mem ha))
    · have hdistinct : ([nameName,commentName,typeName].map (·.write)).Nodup := by decide
      have hwritten := hnames.map Name.write
      rw [List.map_map] at hwritten
      exact hdistinct.sublist hwritten
  refine ⟨_,hplain,rfl,?_,?_⟩
  · rw [Tag.write,hwrite,List.append_nil]
  · rw [hplain.shown_eq,← hmap,List.map_map]
    rfl

structure IsValue (c : Content) (value : Option String) : Prop where
  write : c.write = writeValue value
  separate : c.Separate
  bound : c.Bound []
  identities : c.identities = []
  height : c.height ≤ 1
  text : ((c.nodes []).find? (·.isElement "value")).map (·.innerText) = value

theorem exists_isValue (value : Option String) : ∃ c, IsValue c value := by
  cases value with
  | none => exact ⟨.done,rfl,trivial,trivial,rfl,Nat.zero_le 1,rfl⟩
  | some s =>
    obtain ⟨c,hc⟩ := exists_shows spells_escapeValue s.toList
    refine ⟨enclosed valueName c .done,?_,⟨hc.separate,trivial⟩,hc.bound_enclosed rfl trivial,
      hc.identities_enclosed rfl _,(hc.height_enclosed _ _).le,?_⟩
    · simp [write_enclosed,hc.write,Content.write,writeValue,valueName,write_nameOf]
    · have hnode : Node.isElement "value" (.element ⟨none,valueName.shown⟩ [] (c.nodes [])) = true :=
        rfl
      rw [nodes_enclosed rfl,List.find?_cons_of_pos hnode,Option.map_some,Node.innerText,
        String.toList_inj.mp hc.text]

/-- A tag and the content behind it that stand for an entry. -/
structure IsRecord (t : Tag) (children : Content) (e : Entry) : Prop where
  write : ∀ rest, (Content.element t children [] isBlanks_nil rest).write =
    writeEntry e ++ rest.write
  plain : t.IsPlain
  name : t.name = dataName
  separate : children.Separate
  bound : children.Bound []
  identities : children.identities = []
  height : children.height ≤ 1
  entry : entryOf (.element (t.expanded []) (t.shown []) (children.nodes [])) = e

theorem exists_isRecord (e : Entry) : ∃ t children, IsRecord t children e := by
  obtain ⟨t,hplain,hname,htag,hshown⟩ := exists_tag e
  obtain ⟨children,hvalue⟩ := exists_isValue e.value
  refine ⟨t,children,fun rest => ?_,hplain,hname,hvalue.separate,hvalue.bound,hvalue.identities,
    hvalue.height,?_⟩
  · rw [Content.write,htag,hvalue.write,hname]
    unfold writeEntry
    simp [fieldsOf,dataName,nameName,commentName,typeName,Name.shown,write_nameOf]
  · have hchildren : ∀ n as, (Node.element n as (children.nodes [])).children =
        children.nodes [] := fun _ _ => rfl
    unfold entryOf
    rw [hshown,hchildren,hvalue.text]
    obtain ⟨name,value,comment,type⟩ := e
    cases name <;> cases comment <;> cases type <;> rfl

theorem clean_of_all {cs : List Char} (h : cs.all isChar = true) : Clean cs :=
  List.all_eq_true.mp h

theorem isWritable_of_all {e : Entry} (h : ∀ text ∈ [e.name,e.value,e.comment,e.type], ∀ s ∈ text,
    s.toList.all isChar = true) : IsWritable e :=
  fun text htext s hs => clean_of_all (h text htext s hs)

theorem clean_flatMap {f : Char → List Char} (hf : ∀ c, isChar c = true → Clean (f c))
    {cs : List Char} (h : Clean cs) : Clean (cs.flatMap f) := by
  intro d hd
  obtain ⟨c,hc,hmem⟩ := List.mem_flatMap.mp hd
  exact hf c (h c hc) d hmem

theorem clean_blanks {cs : List Char} (h : IsBlanks cs) : Clean cs := by
  intro c hc
  have hblank : c = ' ' ∨ c = '\t' ∨ c = '\n' ∨ c = '\r' := by
    simpa [Reader.isBlank,or_assoc] using h c hc
  rcases hblank with rfl | rfl | rfl | rfl <;> decide

theorem clean_escape (c : Char) (h : isChar c = true) : Clean (escape c) := by
  unfold escape
  split
  · exact clean_of_all (by decide)
  · exact clean_of_all (by decide)
  · exact clean_of_all (by decide)
  · exact clean_of_all (by decide)
  · exact clean_singleton h

theorem clean_escapeValue (c : Char) (h : isChar c = true) : Clean (escapeValue c) := by
  unfold escapeValue
  split
  · exact clean_of_all (by decide)
  · exact clean_of_all (by decide)
  · exact clean_escape c h

theorem clean_escapeAttribute (c : Char) (h : isChar c = true) : Clean (escapeAttribute c) := by
  unfold escapeAttribute
  split
  · exact clean_of_all (by decide)
  · exact clean_of_all (by decide)
  · exact clean_escapeValue c h

theorem isChar_of_isAlphanum {c : Char} (h : c.isAlphanum = true) : isChar c = true := by
  have hbounds : (65 ≤ c.toNat ∧ c.toNat ≤ 90 ∨ 97 ≤ c.toNat ∧ c.toNat ≤ 122) ∨
      48 ≤ c.toNat ∧ c.toNat ≤ 57 := by
    change ((decide (c.val ≥ 65 ∧ c.val ≤ 90) || decide (c.val ≥ 97) && decide (c.val ≤ 122)) ||
      decide (c.val ≥ 48) && decide (c.val ≤ 57)) = true at h
    simp only [Bool.or_eq_true,Bool.and_eq_true,decide_eq_true_eq,ge_iff_le,
      UInt32.le_iff_toNat_le] at h
    exact h
  simp only [isChar,Bool.or_eq_true,Bool.and_eq_true,decide_eq_true_eq]
  omega

theorem clean_encodingName {name : List Char} (h : Reader.isEncodingName name = true) :
    Clean name := by
  cases name with
  | nil => simp [Reader.isEncodingName] at h
  | cons c rest =>
    rw [Reader.isEncodingName,Bool.and_eq_true] at h
    refine .cons (isChar_of_isAlphanum (Bool.or_eq_true_iff.mpr (.inl h.1))) fun d hd => ?_
    have hd' := List.all_eq_true.mp h.2 d hd
    simp only [Bool.or_eq_true,decide_eq_true_eq] at hd'
    rcases hd' with ((hd' | rfl) | rfl) | rfl
    · exact isChar_of_isAlphanum hd'
    all_goals decide

theorem clean_declaration {encoding : Option (List Char)}
    (h : ∀ name ∈ encoding, Reader.isEncodingName name = true) : Clean (declaration encoding) := by
  cases encoding with
  | none => exact fun c hc => by simp [declaration] at hc
  | some name =>
    have hname := clean_encodingName (h name rfl)
    exact (clean_of_all (by decide)).append (hname.append (clean_of_all (by decide)))

theorem clean_writeField (name : String) (hname : Clean name.toList) {text : Option String}
    (h : ∀ s ∈ text, Clean s.toList) : Clean (writeField name text) := by
  cases text with
  | none => exact fun c hc => by simp [writeField] at hc
  | some s =>
    have htext := clean_flatMap clean_escapeAttribute (h s rfl)
    have hequals : Clean ['=','"'] := clean_of_all (by decide)
    have hquote : Clean ['"'] := clean_of_all (by decide)
    exact .cons (by decide) (hname.append (hequals.append (htext.append hquote)))

theorem clean_writeValue {value : Option String} (h : ∀ s ∈ value, Clean s.toList) :
    Clean (writeValue value) := by
  cases value with
  | none => exact fun c hc => by simp [writeValue] at hc
  | some s =>
    have htext := clean_flatMap clean_escapeValue (h s rfl)
    exact (clean_of_all (by decide)).append (htext.append (clean_of_all (by decide)))

theorem clean_writeEntry {e : Entry} (h : IsWritable e) : Clean (writeEntry e) := by
  have hname := clean_writeField "name" (clean_of_all (by decide)) (h e.name (by simp))
  have hcomment :=
    clean_writeField "comment" (clean_of_all (by decide)) (h e.comment (by simp))
  have htype := clean_writeField "type" (clean_of_all (by decide)) (h e.type (by simp))
  have hvalue := clean_writeValue (h e.value (by simp))
  have hend : Clean (writeValue e.value ++ "</data>".toList) :=
    hvalue.append (clean_of_all (by decide))
  exact (clean_of_all (by decide)).append
    (hname.append (hcomment.append (htype.append (.cons (by decide) hend))))

end Resx
end TypedResources

import TypedResources.Proofs.Writing

/-! Resource documents with anything between their entries that is no entry. They are read back to
the entries, as long as nothing in them is nested too deep. -/
namespace TypedResources
namespace Resx

open Markup Written

/-- A resource document. Behind each of its entries, and before the first, other content stands. -/
structure Document where
  encoding : Option (List Char)
  lead : List Char
  first : Content
  records : List (Entry × Content)
  follows : List Char

namespace Document

def entries (d : Document) : List Entry := d.records.map (·.1)

def noise (d : Document) : List Content := d.first :: d.records.map (·.2)

def write (d : Document) : List Char :=
  declaration d.encoding ++ (d.lead ++ ("<root>".toList ++ (d.first.write ++
    (d.records.flatMap (fun r => writeEntry r.1 ++ r.2.write) ++ ("</root>".toList ++ d.follows)))))

end Document

/-- Content that is no entry and has no fault in a scope without bindings. -/
structure IsNoise (c : Content) : Prop where
  separate : c.Separate
  bound : c.Bound []
  clean : Clean c.write
  other : ∀ n ∈ c.nodes [], n.isElement "data" = false

structure Document.WellFormed (d : Document) : Prop where
  named : ∀ name ∈ d.encoding, Reader.isEncodingName name = true
  leads : IsBlanks d.lead
  follows : IsBlanks d.follows
  entries : ∀ e ∈ d.entries, IsWritable e
  noise : ∀ c ∈ d.noise, IsNoise c
  identities : (d.noise.flatMap (·.identities)).Nodup

/-- No element below the root is nested too deep. -/
def Document.Shallow (d : Document) : Prop := ∀ c ∈ d.noise, c.height < Check.maxElementDepth

/-- Content of a root element that is written so, and holds the entries among the noise. -/
structure Holds (c : Content) (written : List Char) (noise : List Content)
    (entries : List Entry) : Prop where
  write : c.write = written
  separate : c.Separate
  bound : c.Bound []
  identities : c.identities = noise.flatMap (·.identities)
  height : ∀ n, 2 ≤ n → (c.height ≤ n ↔ ∀ x ∈ noise, x.height ≤ n)
  entries : ((c.nodes []).filter (·.isElement "data")).map entryOf = entries

variable {c : Content} {written : List Char} {noise : List Content} {entries : List Entry}

theorem Holds.behind_noise (h : Holds c written noise entries) (hstart : c.startsWithText = false)
    {x : Content} (hx : IsNoise x) :
    Holds (x.append c) (x.write ++ written) (x :: noise) entries where
  write := by rw [Content.write_append,h.write]
  separate := hx.separate.append h.separate hstart
  bound := hx.bound.append h.bound
  identities := by rw [Content.identities_append,h.identities,List.flatMap_cons]
  height n hn := by rw [Content.height_append,Nat.max_le,h.height n hn,List.forall_mem_cons]
  entries := by
    have hnone : (x.nodes []).filter (·.isElement "data") = [] :=
      List.filter_eq_nil_iff.mpr fun n hn => by simp [hx.other n hn]
    rw [Content.nodes_append,List.filter_append,hnone,List.nil_append,h.entries]

theorem Holds.behind_entry (h : Holds c written noise entries) (e : Entry) :
    ∃ c', c'.startsWithText = false ∧ Holds c' (writeEntry e ++ written) noise (e :: entries) := by
  obtain ⟨t,children,hrecord⟩ := exists_isRecord e
  have hscope := hrecord.plain.scope_eq []
  refine ⟨.element t children [] isBlanks_nil c,rfl,by rw [hrecord.write,h.write],
    ⟨hrecord.separate,h.separate⟩,⟨hrecord.plain.bound [],?_,h.bound⟩,?_,?_,?_⟩
  · rw [hscope]
    exact hrecord.bound
  · rw [Content.identities,hrecord.plain.identities_eq,hrecord.identities,h.identities]
    rfl
  · intro n hn
    have hheight := hrecord.height
    rw [Content.height,Nat.max_le,h.height n hn]
    exact and_iff_right (by omega)
  · have hdata : Node.isElement "data"
        (.element (t.expanded []) (t.shown []) (children.nodes [])) = true := by
      rw [hrecord.plain.expanded_eq,hrecord.name]
      rfl
    rw [Content.nodes,hscope,List.filter_cons_of_pos hdata,List.map_cons,hrecord.entry,h.entries]

theorem exists_holds {records : List (Entry × Content)} (h : ∀ r ∈ records, IsNoise r.2) :
    ∃ c, c.startsWithText = false ∧ Holds c
      (records.flatMap fun r => writeEntry r.1 ++ r.2.write) (records.map (·.2))
      (records.map (·.1)) := by
  induction records with
  | nil => exact ⟨.done,rfl,rfl,trivial,trivial,rfl,by simp [Content.height],rfl⟩
  | cons r rest ih =>
    obtain ⟨c,hstart,hc⟩ := ih fun x hx => h x (by simp [hx])
    obtain ⟨c',hstart',hc'⟩ := (hc.behind_noise hstart (h r (by simp))).behind_entry r.1
    refine ⟨c',hstart',?_⟩
    rw [List.flatMap_cons,List.append_assoc]
    exact hc'

theorem Document.WellFormed.clean {d : Document} (h : d.WellFormed) : Clean d.write := by
  have hfirst : Clean d.first.write := (h.noise _ List.mem_cons_self).clean
  have hrecords : Clean (d.records.flatMap fun r => writeEntry r.1 ++ r.2.write) := by
    intro c hc
    obtain ⟨r,hr,hmem⟩ := List.mem_flatMap.mp hc
    have hentry := clean_writeEntry (h.entries r.1 (List.mem_map_of_mem hr))
    have hnoise := (h.noise r.2 (List.mem_cons_of_mem _ (List.mem_map_of_mem hr))).clean
    exact hentry.append hnoise c hmem
  have hend : Clean ("</root>".toList ++ d.follows) :=
    (clean_of_all (by decide)).append (clean_blanks h.follows)
  exact (clean_declaration h.named).append ((clean_blanks h.leads).append
    ((clean_of_all (by decide)).append (hfirst.append (hrecords.append hend))))

/-- The document of markup with the given content in its root element. -/
def Document.around (d : Document) (h : d.WellFormed) (c : Content) : Written.Document :=
  ⟨d.encoding,d.lead,plainTag rootName,c,[],d.follows,h.named,h.leads,isBlanks_nil,h.follows⟩

/-- A well-formed document is a document of markup that has no fault. -/
theorem exists_proper {d : Document} (h : d.WellFormed) : ∃ w : Written.Document, w.Proper ∧
    w.write = d.write ∧ entriesOf w.node = d.entries ∧
    (w.depth ≤ Check.maxElementDepth ↔ d.Shallow) := by
  have hfirst : IsNoise d.first := h.noise _ List.mem_cons_self
  have hrecords : ∀ r ∈ d.records, IsNoise r.2 :=
    fun r hr => h.noise _ (List.mem_cons_of_mem _ (List.mem_map_of_mem hr))
  obtain ⟨c,hstart,hc⟩ := exists_holds hrecords
  have hholds := hc.behind_noise hstart hfirst
  have hplain : (plainTag rootName).IsPlain := isPlain_plainTag rfl
  have hwrite : (d.around h (d.first.append c)).write = d.write := by
    simp [Document.around,Written.Document.write,Written.Document.content,Content.write,
      Document.write,hholds.write,Tag.write,plainTag,rootName,write_nameOf,write_ofBlanks]
  refine ⟨d.around h (d.first.append c),?_,hwrite,?_,?_⟩
  · refine Written.Document.proper_of_isPlain hplain hholds.separate hholds.bound ?_ ?_
    · rw [Document.around,hholds.identities]
      exact h.identities
    · rw [hwrite]
      exact h.clean
  · have hnode := Written.Document.node_of_isPlain (d := d.around h (d.first.append c)) hplain
    have hroot : Node.isElement "root" (d.around h (d.first.append c)).node = true := by
      rw [hnode]
      rfl
    rw [entriesOf,if_pos hroot,hnode]
    exact hholds.entries
  · have hheight := hholds.height 255 (by decide)
    exact Nat.succ_le_succ_iff.trans (hheight.trans (forall₂_congr fun x _ => Nat.lt_succ_iff.symm))

/-- What was written is read back, with line ends of any kind and behind a byte order mark. -/
theorem parse_write {d : Document} (h : d.WellFormed) (hshallow : d.Shallow) {text : String}
    (htext : Text.unifyLineEnds (Text.withoutMark text.toList) = d.write) :
    parse text = some d.entries := by
  obtain ⟨w,hproper,hwrite,hentries,hdepth⟩ := exists_proper h
  rw [← hwrite] at htext
  rw [parse,readDocument_write hproper htext,if_pos (hdepth.mpr hshallow),Option.map_some,hentries]

def noteTag : Tag := plainTag (nameOf "note" (.of_all rfl (by decide)) (by decide))

theorem isPlain_noteTag : noteTag.IsPlain := isPlain_plainTag rfl

theorem expanded_noteTag : noteTag.expanded [] = ⟨none,"note"⟩ :=
  isPlain_noteTag.expanded_eq.trans (congrArg _ String.ofList_toList)

def sampleNoise : Content :=
  .atom (.text "\n and \n".toList ⟨by simp,by simp,by decide⟩) <|
  .atom (.comment " <data/> ".toList (by decide)) <|
  .element noteTag (.atom (.reference (.decimal ['6','5'] 'A' (by decide))) .done) []
    isBlanks_nil <|
  .atom (.instruction "go".toList " on".toList
    ⟨.of_all rfl (by decide),by decide,by simp [String.ext_iff]⟩ (by simp [Reader.isBlank])
    (by decide)) .done

def sample : Document where
  encoding := some "utf-16".toList
  lead := ['\n']
  first := .done
  records := [(⟨some "a<b",some "x & \"y\"\r\n",some "c\td",none⟩,sampleNoise),
    (⟨none,some "",none,some "t"⟩,.done)]
  follows := []

def sampleText : String := String.ofList <|
  "\uFEFF<?xml version=\"1.0\"".toList ++ (" encoding=\"utf-16\"?>\r\n<root>".toList ++
  ("<data name=\"a&lt;b\"".toList ++ (" comment=\"c&#9;d\">".toList ++
  ("<value>x &amp; &quot;y".toList ++ ("&quot;&#13;\r</value>".toList ++
  ("</data>\r and \n<!-- <data/>".toList ++ (" --><note>&#65;</note>".toList ++
  ("<?go on?><data type=\"t\">".toList ++ "<value></value></data></root>".toList))))))))

theorem isNoise_done : IsNoise .done where
  separate := trivial
  bound := trivial
  clean c hc := by simp [Content.write] at hc
  other n hn := by simp [Content.nodes] at hn

theorem isNoise_sampleNoise : IsNoise sampleNoise where
  separate := ⟨fun _ => rfl,fun _ => rfl,⟨fun _ => rfl,trivial⟩,fun _ => rfl,trivial⟩
  bound := ⟨isPlain_noteTag.bound [],trivial,trivial⟩
  clean := clean_of_all (by decide)
  other := by simp [sampleNoise,Content.nodes,Atom.nodes,Node.isElement,expanded_noteTag]

theorem wellFormed_sample : sample.WellFormed where
  named name hname := by
    obtain rfl := Option.some.inj hname
    decide
  leads := by simp [sample,IsBlanks,Reader.isBlank]
  follows := isBlanks_nil
  entries e he := isWritable_of_all ((by decide : ∀ e ∈ sample.entries,
    ∀ text ∈ [e.name,e.value,e.comment,e.type], ∀ s ∈ text, s.toList.all isChar = true) e he)
  noise := by
    have hall : sample.noise = [.done,sampleNoise,.done] := rfl
    rw [hall]
    exact List.forall_mem_cons.mpr ⟨isNoise_done,List.forall_mem_cons.mpr ⟨isNoise_sampleNoise,
      List.forall_mem_singleton.mpr isNoise_done⟩⟩
  identities := by decide

theorem parse_sampleText : parse sampleText = some
    [⟨some "a<b",some "x & \"y\"\r\n",some "c\td",none⟩,⟨none,some "",none,some "t"⟩] := by
  refine parse_write wellFormed_sample ?_ ?_
  · unfold Document.Shallow
    decide
  · unfold sampleText
    rw [String.toList_ofList]
    decide +kernel

/-- A document that is too deep is refused, whatever entries it holds. -/
theorem parse_too_deep {d : Document} (h : d.WellFormed) (hdeep : ¬ d.Shallow) {text : String}
    (htext : Text.unifyLineEnds (Text.withoutMark text.toList) = d.write) : parse text = none := by
  obtain ⟨w,hproper,hwrite,-,hdepth⟩ := exists_proper h
  rw [← hwrite] at htext
  rw [parse,readDocument_write hproper htext,if_neg (mt hdepth.mp hdeep),Option.map_none]

def nested : Nat → Content
  | 0 => .done
  | n + 1 => .element noteTag (nested n) [] isBlanks_nil .done

theorem height_nested (n : Nat) : (nested n).height = n := by
  induction n with
  | zero => rfl
  | succ n ih => rw [nested,Content.height,Content.height,ih,Nat.max_zero]

theorem identities_nested (n : Nat) : (nested n).identities = [] := by
  induction n with
  | zero => rfl
  | succ n ih =>
    rw [nested,Content.identities,ih,isPlain_noteTag.identities_eq]
    rfl

theorem mem_nested {n : Nat} {c : Char} (h : c ∈ (nested n).write) : c ∈ "</note>".toList := by
  induction n with
  | zero => simp [nested,Content.write] at h
  | succ n ih =>
    have hwrite : (nested (n + 1)).write =
        "<note>".toList ++ ((nested n).write ++ "</note>".toList) := by
      simp [nested,Content.write,Tag.write,noteTag,plainTag,write_nameOf]
    rw [hwrite,List.mem_append,List.mem_append] at h
    have hopening : ∀ d ∈ "<note>".toList, d ∈ "</note>".toList := by simp
    rcases h with h | h | h
    · exact hopening c h
    · exact ih h
    · exact h

theorem isNoise_nested (n : Nat) : IsNoise (nested n) where
  separate := by
    induction n with
    | zero => trivial
    | succ n ih => exact ⟨ih,trivial⟩
  bound := by
    induction n with
    | zero => trivial
    | succ n ih =>
      refine ⟨isPlain_noteTag.bound [],?_,trivial⟩
      rwa [isPlain_noteTag.scope_eq]
  clean c hc := clean_of_all (by decide) c (mem_nested hc)
  other := by
    cases n with
    | zero => exact isNoise_done.other
    | succ n =>
      refine List.forall_mem_singleton.mpr ?_
      rw [expanded_noteTag]
      rfl

def deep : Document where
  encoding := none
  lead := []
  first := nested 256
  records := [(⟨some "x",some "y",none,none⟩,.done)]
  follows := []

theorem wellFormed_deep : deep.WellFormed where
  named name hname := by simp [deep] at hname
  leads := isBlanks_nil
  follows := isBlanks_nil
  entries e he := isWritable_of_all ((by decide : ∀ e ∈ deep.entries,
    ∀ text ∈ [e.name,e.value,e.comment,e.type], ∀ s ∈ text, s.toList.all isChar = true) e he)
  noise := by
    have hall : deep.noise = [nested 256,.done] := rfl
    rw [hall]
    exact List.forall_mem_cons.mpr ⟨isNoise_nested 256,List.forall_mem_singleton.mpr isNoise_done⟩
  identities := by
    have hall : deep.noise.flatMap (·.identities) = (nested 256).identities ++ [] := rfl
    rw [hall,identities_nested]
    exact List.nodup_nil

theorem parse_deep : deep.WellFormed ∧ parse (String.ofList deep.write) ≠ some deep.entries := by
  have hshallow : ¬ deep.Shallow := fun h => by
    have hheight := h (nested 256) List.mem_cons_self
    rw [height_nested] at hheight
    exact absurd hheight (by decide)
  have hparts : deep.write = "<root>".toList ++ ((nested 256).write ++
      (deep.records.flatMap (fun r => writeEntry r.1 ++ r.2.write) ++ "</root>".toList)) := by
    simp [Document.write,deep,declaration]
  have hreturn : '\r' ∉ deep.write := by
    rw [hparts,List.mem_append,List.mem_append]
    rintro (h | h | h)
    · exact absurd h (by decide)
    · exact absurd (mem_nested h) (by decide)
    · exact absurd h (by decide)
  have hmark : Text.withoutMark deep.write = deep.write := rfl
  refine ⟨wellFormed_deep,?_⟩
  rw [parse_too_deep wellFormed_deep hshallow]
  · simp
  · rw [String.toList_ofList,hmark,unifyLineEnds_of_not_mem hreturn]

end Resx
end TypedResources

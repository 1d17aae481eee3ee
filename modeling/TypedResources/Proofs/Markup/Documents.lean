import TypedResources.Proofs.Markup.Assembly

/-! Whole documents as they are written: a declaration, if there is one, and a root element between
white space. A document is read to its root element, whatever encoding it declares. -/
namespace TypedResources
namespace Markup
namespace Written

def declarationOf (encoding : List Char) : List Char :=
  "<?xml version=\"1.0\" encoding=\"".toList ++ (encoding ++ "\"?>".toList)

def declaration (encoding : Option (List Char)) : List Char := encoding.elim [] declarationOf

theorem IsBlanks.isText {cs : List Char} (h : IsBlanks cs) (hne : cs ≠ []) : IsText cs where
  nonempty := hne
  free c hc := by
    constructor <;> rintro rfl <;> exact absurd (h _ hc) (by decide)
  within hin := absurd (h '>' (hin.subset (by decide))) (by decide)

def Content.ofBlanks (cs : List Char) (h : IsBlanks cs) : Content :=
  if hne : cs = [] then .done else .atom (.text cs (h.isText hne)) .done

structure Document where
  encoding : Option (List Char)
  lead : List Char
  root : Tag
  children : Content
  tail : List Char
  after : List Char
  named : ∀ name ∈ encoding, Reader.isEncodingName name = true
  leads : IsBlanks lead
  tails : IsBlanks tail
  follows : IsBlanks after

namespace Document

def content (d : Document) : Content :=
  .element d.root d.children d.tail d.tails (.ofBlanks d.after d.follows)

def write (d : Document) : List Char := declaration d.encoding ++ (d.lead ++ d.content.write)

def node (d : Document) : Node :=
  .element (d.root.expanded []) (d.root.shown []) (d.children.nodes (d.root.scope []))

end Document

section Prolog

open Reader

theorem reads_assigned (cs : List Char) (h : '"' ∉ cs) (rest : List Char) :
    Reads assigned ('=' :: '"' :: (cs ++ '"' :: rest)) cs rest := by
  refine reads_bind (reads_blanks (head_of_cons (by decide) _)) ?_
  refine reads_bind (reads_word "=" _) ?_
  refine reads_bind (reads_blanks (head_of_cons (by decide) _)) ?_
  exact reads_bind (reads_optionalWord "\"" _) (reads_untilMark h rest)

theorem quote_not_mem_encodingName {name : List Char} (h : isEncodingName name = true) :
    '"' ∉ name := by
  cases name with
  | nil => simp
  | cons c more =>
    rw [isEncodingName,Bool.and_eq_true] at h
    intro hmem
    rcases List.mem_cons.mp hmem with rfl | hmem
    · exact absurd h.1 (by decide)
    · exact absurd (List.all_eq_true.mp h.2 _ hmem) (by decide)

theorem declarationOf_eq (encoding : List Char) : declarationOf encoding =
    "<?xml".toList ++ (' ' :: ("version".toList ++ ('=' :: '"' :: ("1.0".toList ++ ('"' :: (' ' ::
      ("encoding".toList ++ ('=' :: '"' :: (encoding ++ ('"' :: "?>".toList)))))))))) := by
  unfold declarationOf
  simp

/-- A space, and a word after it that begins otherwise. -/
theorem reads_space {w : String} (h : w.toList.head?.any (!isBlank ·) = true) (rest : List Char) :
    Reads blanks (' ' :: (w.toList ++ rest)) true (w.toList ++ rest) := by
  have hspace : IsBlanks [' '] := fun c hc => by rw [List.mem_singleton.mp hc]; rfl
  refine reads_blanksOf hspace ?_
  cases hw : w.toList with
  | nil => simp [hw] at h
  | cons c more => exact head_of_cons (by simpa [hw] using h) _

theorem reads_documentDeclaration {name : List Char} (h : isEncodingName name = true)
    (rest : List Char) :
    Reads documentDeclaration (' ' :: ("version".toList ++ ('=' :: '"' :: ("1.0".toList ++ ('"' ::
      (' ' :: ("encoding".toList ++ ('=' :: '"' :: (name ++ ('"' :: ("?>".toList ++ rest)))))))))))
      false rest := by
  have hend : ∀ c ∈ ("?>".toList ++ rest).head?, isBlank c = false :=
    head_of_cons (by decide : isBlank '?' = false) _
  refine reads_bind (reads_bind (reads_space (by decide) _) (reads_require rfl _)) ?_
  refine reads_bind (reads_word "version" _) ?_
  refine reads_bind (reads_assigned "1.0".toList (by decide) _) ?_
  refine reads_bind (reads_require (by decide) _) ?_
  refine reads_bind (reads_space (by decide) _) ?_
  refine reads_bind (reads_optionalWord "encoding" _) ?_
  refine reads_bind (reads_require rfl _) ?_
  refine reads_bind (reads_assigned name (quote_not_mem_encodingName h) _) ?_
  refine reads_bind (reads_require h _) ?_
  refine reads_bind (reads_blanks hend) ?_
  refine reads_bind (reads_optionalWord_false (by rfl)) ?_
  refine reads_bind (reads_pure false _) ?_
  exact reads_bind (reads_word "?>" rest) (reads_pure _ rest)

/-- A tag begins with a character that begins no comment, no instruction and no declaration. -/
theorem reads_asidesOf {lead : List Char} (h : IsBlanks lead) {c : Char}
    (hc : isNameStart c = true) (rest : List Char) :
    Reads asides (lead ++ '<' :: c :: rest) [] ('<' :: c :: rest) := by
  induction lead with
  | nil =>
    refine reads_asides ?_ ?_ rest
    · rintro rfl
      exact absurd hc (by decide)
    · rintro rfl
      exact absurd hc (by decide)
  | cons d more ih =>
    have hd : isBlank d = true := h d (by simp)
    have hne : d ≠ '<' := by
      rintro rfl
      exact absurd hd (by decide)
    obtain ⟨t,ht,hvalue,hrest⟩ := ih fun e he => h e (by simp [he])
    show Reads asides (d :: (more ++ '<' :: c :: rest)) [] ('<' :: c :: rest)
    refine ⟨⟨t.value,t.rest,t.rest_suffix.trans (List.suffix_cons _ _)⟩,?_,hvalue,hrest⟩
    rw [asides]
    · simp only [hd,if_true,ht]
    · exact fun _ heq _ => hne heq
    · exact fun _ heq _ => hne heq

theorem reads_atDeclaration (rest : List Char) : Reads atDeclaration
    ("<?xml".toList ++ (' ' :: rest)) true ("<?xml".toList ++ (' ' :: rest)) := by
  refine reads_bind ⟨_,rfl,rfl,rfl⟩ ⟨_,rfl,?_,rfl⟩
  show ("<?xml".toList.isPrefixOf ("<?xml".toList ++ (' ' :: rest)) &&
    ("<?xml".toList ++ (' ' :: rest))[5]?.any isBlank) = true
  simp [isBlank]

theorem reads_atDeclaration_false {lead : List Char} (h : IsBlanks lead) {c : Char}
    (hc : isNameStart c = true) (rest : List Char) :
    Reads atDeclaration (lead ++ '<' :: c :: rest) false (lead ++ '<' :: c :: rest) := by
  have hno : "<?xml".toList.isPrefixOf (lead ++ '<' :: c :: rest) = false := by
    cases lead with
    | nil =>
      have hquestion : '?' ≠ c := by
        rintro rfl
        exact absurd hc (by decide)
      simp [List.isPrefixOf,hquestion]
    | cons d more =>
      have hne : '<' ≠ d := by
        rintro rfl
        exact absurd (h '<' (by simp)) (by decide)
      simp [List.isPrefixOf,hne]
  refine reads_bind ⟨_,rfl,rfl,rfl⟩ ⟨_,rfl,?_,rfl⟩
  show ("<?xml".toList.isPrefixOf (lead ++ '<' :: c :: rest) && _) = false
  rw [hno,Bool.false_and]

/-- The prolog of a document is skipped, its encoding not minded. -/
theorem reads_prologOf {encoding : Option (List Char)}
    (h : ∀ name ∈ encoding, isEncodingName name = true) {lead : List Char} (hlead : IsBlanks lead)
    {c : Char} (hc : isNameStart c = true) (rest : List Char) :
    Reads prolog (declaration encoding ++ (lead ++ '<' :: c :: rest)) ⟨false,[],none,[]⟩
      ('<' :: c :: rest) := by
  have hbang : c ≠ '!' := by
    rintro rfl
    exact absurd hc (by decide)
  have hdoctype : "<!DOCTYPE".toList.isPrefixOf ('<' :: c :: rest) = false := by
    simp [List.isPrefixOf,hbang.symm]
  cases encoding with
  | none =>
    refine reads_bind (reads_atDeclaration_false hlead hc rest) ?_
    refine reads_bind (reads_pure false _) ?_
    refine reads_bind (reads_asidesOf hlead hc rest) ?_
    exact reads_bind (reads_optionalWord_false hdoctype) (reads_pure _ _)
  | some name =>
    simp only [declaration,Option.elim_some,declarationOf_eq,List.append_assoc,List.cons_append]
    refine reads_bind (reads_atDeclaration _) ?_
    refine reads_bind (reads_word "<?xml" _) ?_
    refine reads_bind (reads_documentDeclaration (h name rfl) _) ?_
    refine reads_bind (reads_asidesOf hlead hc rest) ?_
    exact reads_bind (reads_optionalWord_false hdoctype) (reads_pure _ _)

end Prolog

section Root

open Check

theorem splitRoot_atom (a : Atom) (depth : Nat) (rest : List Token) :
    splitRoot (depth + 1) (a.token :: rest) =
      (a.token :: (splitRoot (depth + 1) rest).1,(splitRoot (depth + 1) rest).2) := by
  cases a <;> simp [Atom.token,splitRoot]

theorem splitRoot_empty (t : Tag) (depth : Nat) (rest : List Token) :
    splitRoot (depth + 1) (t.opening true :: rest) =
      (t.opening true :: (splitRoot (depth + 1) rest).1,(splitRoot (depth + 1) rest).2) := by
  simp [Tag.opening,splitRoot]

theorem splitRoot_opening (t : Tag) (depth : Nat) (rest : List Token) :
    splitRoot depth (t.opening false :: rest) =
      (t.opening false :: (splitRoot (depth + 1) rest).1,(splitRoot (depth + 1) rest).2) := by
  simp [Tag.opening,splitRoot]

theorem splitRoot_closing (name : String) (depth : Nat) (rest : List Token) :
    splitRoot (depth + 2) (.closing name :: rest) =
      (.closing name :: (splitRoot (depth + 1) rest).1,(splitRoot (depth + 1) rest).2) := by
  simp [splitRoot]

theorem splitRoot_content (c : Content) (depth : Nat) (rest : List Token) :
    splitRoot (depth + 1) (c.tokens ++ rest) =
      (c.tokens ++ (splitRoot (depth + 1) rest).1,(splitRoot (depth + 1) rest).2) := by
  induction c generalizing depth rest with
  | done => rfl
  | atom a others ih =>
    rw [Content.tokens,List.cons_append,splitRoot_atom,ih]
    rfl
  | empty t others ih =>
    rw [Content.tokens,List.cons_append,splitRoot_empty,ih]
    rfl
  | element t children tail blank others ihchildren ih =>
    rw [Content.tokens,List.cons_append,List.append_assoc,List.cons_append,splitRoot_opening,
      ihchildren,splitRoot_closing,ih]
    simp

/-- The tokens of a document are those of its root element, and those after it. -/
theorem splitRoot_document (d : Document) : splitRoot 0 d.content.tokens =
    (d.root.opening false :: (d.children.tokens ++ [.closing d.root.name.shown]),
      (Content.ofBlanks d.after d.follows).tokens) := by
  have hend : ∀ more, splitRoot 1 (.closing d.root.name.shown :: more) =
      ([.closing d.root.name.shown],more) := fun more => by simp [splitRoot]
  rw [Document.content,Content.tokens,splitRoot_opening,splitRoot_content,hend]

theorem write_ofBlanks {cs : List Char} (h : IsBlanks cs) : (Content.ofBlanks cs h).write = cs := by
  rw [Content.ofBlanks]
  split
  · rename_i hnil
    rw [hnil]
    rfl
  · exact List.append_nil cs

theorem isOutside_ofBlanks {cs : List Char} (h : IsBlanks cs) :
    (Content.ofBlanks cs h).tokens.all isOutside = true := by
  rw [Content.ofBlanks]
  split
  · rfl
  · simpa [Content.tokens,Atom.token,isOutside,IsBlanks] using h

theorem bound_ofBlanks {cs : List Char} (h : IsBlanks cs) (scope : Scope) :
    (Content.ofBlanks cs h).Bound scope := by
  rw [Content.ofBlanks]
  split <;> trivial

theorem separate_ofBlanks {cs : List Char} (h : IsBlanks cs) :
    (Content.ofBlanks cs h).Separate := by
  rw [Content.ofBlanks]
  split
  · trivial
  · exact ⟨fun _ => rfl,trivial⟩

theorem height_ofBlanks {cs : List Char} (h : IsBlanks cs) :
    (Content.ofBlanks cs h).height = 0 := by
  rw [Content.ofBlanks]
  split <;> rfl

theorem identities_ofBlanks {cs : List Char} (h : IsBlanks cs) :
    (Content.ofBlanks cs h).identities = [] := by
  rw [Content.ofBlanks]
  split <;> rfl

/-- The rules for a document beyond its form. -/
structure Document.Proper (d : Document) : Prop where
  separate : d.children.Separate
  root : d.root.Bound []
  bound : d.children.Bound (d.root.scope [])
  identities : (d.root.identities ++ d.children.identities).Nodup
  clean : Clean d.write

/-- A root tag without qualifiers and bindings adds no rules to those of its content. -/
theorem Document.proper_of_isPlain {d : Document} (h : d.root.IsPlain)
    (hseparate : d.children.Separate) (hbound : d.children.Bound [])
    (hids : d.children.identities.Nodup) (hclean : Clean d.write) : d.Proper where
  separate := hseparate
  root := h.bound []
  bound := by rwa [h.scope_eq]
  identities := by rwa [h.identities_eq,List.nil_append]
  clean := hclean

theorem Document.node_of_isPlain {d : Document} (h : d.root.IsPlain) :
    d.node = .element ⟨none,d.root.name.shown⟩ (d.root.shown []) (d.children.nodes []) := by
  rw [node,h.expanded_eq,h.scope_eq]

def Document.depth (d : Document) : Nat := d.children.height + 1

theorem build_document {d : Document} (h : d.Proper) {p : Progress} (hp : Quiet p)
    (hids : p.identities = []) (depth entityDepth : Nat) :
    build depth 0 (contentReference entityDepth) Building.empty d.content.tokens p =
      if d.depth ≤ maxElementDepth then
        some (d.content.nodes [],p.identifying (d.root.identities ++ d.children.identities))
      else none := by
  have hbound : d.content.Bound [] := ⟨h.root,h.bound,bound_ofBlanks d.follows []⟩
  have hsame : d.content.identities = d.root.identities ++ d.children.identities := by
    rw [Document.content,Content.identities,identities_ofBlanks,List.append_nil]
  have hheight : d.content.height = d.depth := by
    rw [Document.content,Content.height,height_ofBlanks,Nat.max_zero]
    rfl
  have hadmits : p.Admits d.content.identities := by
    rw [Progress.Admits,hids,hsame]
    exact h.identities
  have hbuild := build_content depth entityDepth hp (b := .empty) (Nat.zero_le _) hbound hadmits []
  have hlength : Building.empty.openElements.length = 0 := rfl
  have hnodes : Building.empty.addAll (d.content.nodes Building.empty.scope) =
      ⟨[],(d.content.nodes []).reverse ++ []⟩ := Building.addAll_outside [] _
  rw [List.append_nil,hlength,Nat.zero_add,hheight,hsame,hnodes,List.append_nil] at hbuild
  rw [hbuild,build]
  refine if_congr Iff.rfl ?_ rfl
  refine (bind_of_runs (runs_require rfl _) _).trans ?_
  rw [List.reverse_reverse]
  rfl

theorem document_eq {d : Document} (h : d.Proper) {p : Progress} (hp : Quiet p)
    (hids : p.identities = []) :
    Check.document ⟨false,[],none,[]⟩ d.content.tokens p =
      if d.depth ≤ maxElementDepth then
        some (d.node,p.identifying (d.root.identities ++ d.children.identities))
      else none := by
  have hbuild := build_document h hp hids (maxEntityDepth - 1) maxEntityDepth
  have hall : d.root.opening false :: (d.children.tokens ++ [.closing d.root.name.shown]) ++
      (Content.ofBlanks d.after d.follows).tokens = d.content.tokens := by
    simp [Document.content,Content.tokens]
  unfold Check.document
  rw [splitRoot_document]
  refine (bind_of_runs (runs_pure PUnit.unit p) _).trans ?_
  refine (bind_of_runs (runs_pure PUnit.unit p) _).trans ?_
  refine (bind_of_runs (runs_require (isOutside_ofBlanks d.follows) p) _).trans ?_
  rw [hall]
  by_cases hdepth : d.depth ≤ maxElementDepth
  · rw [if_pos hdepth] at hbuild ⊢
    exact bind_of_runs hbuild _
  · rw [if_neg hdepth] at hbuild ⊢
    exact bind_of_none hbuild _

/-- A document is read to its root element, unless it is too deep: then it is refused. -/
theorem readDocument_write {d : Document} (h : d.Proper) {text : String}
    (htext : Text.unifyLineEnds (Text.withoutMark text.toList) = d.write) :
    readDocument text = if d.depth ≤ maxElementDepth then some d.node else none := by
  have hguard : guard (d.write.all isChar = true) = some () :=
    if_pos (List.all_eq_true.mpr h.clean)
  obtain ⟨c,more,hname,hc⟩ := d.root.name.isName.exists_cons
  have hroot : d.content.write = '<' :: c :: d.content.write.drop 2 := by
    simp [Document.content,Content.write,Tag.write,hname]
  have hprolog : Reader.Reads Reader.prolog d.write ⟨false,[],none,[]⟩ d.content.write := by
    rw [Document.write,hroot]
    exact reads_prologOf d.named d.leads hc _
  have htokens : tokens? d.content.write = some d.content.tokens :=
    tokens?_write ⟨h.separate,separate_ofBlanks d.follows⟩
  obtain ⟨t,ht,hvalue,hrest⟩ := hprolog
  unfold readDocument
  rw [htext]
  show Option.bind (guard (d.write.all isChar = true)) _ = _
  rw [hguard]
  show (Reader.prolog d.write).bind _ = _
  rw [ht]
  show (tokens? t.rest).bind _ = _
  rw [hrest,htokens]
  show (Check.document t.value d.content.tokens _).bind _ = _
  rw [hvalue,document_eq h ⟨rfl,rfl⟩ rfl]
  by_cases hdepth : d.depth ≤ maxElementDepth
  · rw [if_pos hdepth,if_pos hdepth]
    rfl
  · rw [if_neg hdepth,if_neg hdepth]
    rfl

end Root

end Written
end Markup
end TypedResources

import TypedResources.Resource.Resx

/-! What readers make of texts of a known shape, up to whole documents with one entry. -/
namespace TypedResources
namespace Markup
namespace Reader

/-- The reader takes the value from the front of the text and leaves the rest. -/
def Reads {α : Type} (read : Reader α) (input : List Char) (a : α) (rest : List Char) : Prop :=
  ∃ t, read input = some t ∧ t.value = a ∧ t.rest = rest

theorem reads_pure {α : Type} (a : α) (input : List Char) : Reads (pure a) input a input :=
  ⟨_,rfl,rfl,rfl⟩

theorem reads_bind {α β : Type} {read : Reader α} {next : α → Reader β}
    {input mid rest : List Char} {a : α} {b : β} (h : Reads read input a mid)
    (hnext : Reads (next a) mid b rest) : Reads (read >>= next) input b rest := by
  obtain ⟨t,ht,rfl,rfl⟩ := h
  obtain ⟨u,hu,rfl,rfl⟩ := hnext
  exact ⟨⟨u.value,u.rest,u.rest_suffix.trans t.rest_suffix⟩,by simp only [bind,ht,hu],rfl,rfl⟩

theorem reads_require {condition : Bool} (h : condition = true) (input : List Char) :
    Reads (require condition) input () input := by
  rw [require,if_pos h]
  exact reads_pure () input

theorem head_of_cons {p : Char → Bool} {c : Char} {b : Bool} (h : p c = b) (rest : List Char) :
    ∀ d ∈ (c :: rest).head?, p d = b := by
  intro d hd
  obtain rfl := Option.some.inj hd
  exact h

theorem reads_takeWhile {p : Char → Bool} {cs rest : List Char} (h : ∀ c ∈ cs, p c = true)
    (hrest : ∀ c ∈ rest.head?, p c = false) : Reads (takeWhile p) (cs ++ rest) cs rest := by
  have hnone : rest.takeWhile p = [] ∧ rest.dropWhile p = rest := by
    cases rest with
    | nil => exact ⟨rfl,rfl⟩
    | cons c tail => simp [hrest c (by simp)]
  refine ⟨_,rfl,?_,?_⟩
  · show (cs ++ rest).takeWhile p = cs
    rw [List.takeWhile_append_of_pos h,hnone.1,List.append_nil]
  · show (cs ++ rest).dropWhile p = rest
    rw [List.dropWhile_append_of_pos h,hnone.2]

theorem reads_afterWord (w rest : List Char) : Reads (afterWord w) (w ++ rest) () rest := by
  induction w with
  | nil => exact ⟨_,rfl,rfl,rfl⟩
  | cons c cs ih =>
    obtain ⟨t,ht,-,hrest⟩ := ih
    refine ⟨⟨(),t.rest,t.rest_suffix.trans (List.suffix_cons _ _)⟩,?_,rfl,hrest⟩
    simp [afterWord,ht]

theorem reads_word (w : String) (rest : List Char) : Reads (word w) (w.toList ++ rest) () rest :=
  reads_afterWord w.toList rest

theorem reads_optionalWord (w : String) (rest : List Char) :
    Reads (optionalWord w) (w.toList ++ rest) true rest := by
  have hstarts : Reads (startsWith w) (w.toList ++ rest) true (w.toList ++ rest) := by
    refine reads_bind ⟨_,rfl,rfl,rfl⟩ ⟨_,rfl,?_,rfl⟩
    show w.toList.isPrefixOf (w.toList ++ rest) = true
    simp
  apply reads_bind hstarts
  exact reads_bind (reads_word w rest) (reads_pure true rest)

theorem reads_optionalWord_false {w : String} {input : List Char}
    (h : w.toList.isPrefixOf input = false) : Reads (optionalWord w) input false input := by
  have hstarts : Reads (startsWith w) input false input :=
    reads_bind ⟨_,rfl,rfl,rfl⟩ ⟨_,rfl,h,rfl⟩
  exact reads_bind hstarts (reads_pure false input)

theorem reads_many_stop {α : Type} {begins : Char → Bool} {item : Char → Reader α} {c : Char}
    (h : begins c = false) (rest : List Char) :
    Reads (many begins item) (c :: rest) [] (c :: rest) :=
  ⟨⟨[],c :: rest,List.suffix_refl _⟩,by rw [many,h]; rfl,rfl,rfl⟩

theorem reads_many_step {α : Type} {begins : Char → Bool} {item : Char → Reader α} {c : Char}
    {input mid rest : List Char} {a : α} {as : List α} (h : begins c = true)
    (hitem : Reads (item c) input a mid) (hmore : Reads (many begins item) mid as rest) :
    Reads (many begins item) (c :: input) (a :: as) rest := by
  obtain ⟨t,ht,rfl,rfl⟩ := hitem
  obtain ⟨u,hu,rfl,rfl⟩ := hmore
  refine ⟨⟨t.value :: u.value,u.rest,
    (u.rest_suffix.trans t.rest_suffix).trans (List.suffix_cons _ _)⟩,?_,rfl,rfl⟩
  rw [many,h,if_pos rfl]
  simp only [ht,hu]

/-- A text that a name may be, short enough and of the right characters. -/
structure IsName (cs : List Char) : Prop where
  starts : cs.head?.any isNameStart = true
  all : ∀ c ∈ cs, isNameChar c = true
  short : byteLength cs ≤ maxNameBytes

theorem IsName.of_short {cs : List Char} (hstart : cs.head?.any isNameStart = true)
    (hall : cs.all isNameChar = true) (h : byteLength cs ≤ 5) : IsName cs := by
  have hfive : 5 ≤ maxNameBytes := by simp [maxNameBytes]
  exact ⟨hstart,List.all_eq_true.mp hall,Nat.le_trans h hfive⟩

theorem reads_name {cs rest : List Char} (h : IsName cs)
    (hrest : ∀ c ∈ rest.head?, isNameChar c = false) :
    Reads name (cs ++ rest) (String.ofList cs) rest := by
  apply reads_bind (reads_takeWhile h.all hrest)
  apply reads_bind (reads_require h.starts rest)
  exact reads_bind (reads_require (decide_eq_true h.short) rest) (reads_pure _ rest)

theorem reads_blanks {rest : List Char} (hrest : ∀ c ∈ rest.head?, isBlank c = false) :
    Reads blanks rest false rest :=
  reads_bind (reads_takeWhile (by simp : ∀ c ∈ ([] : List Char), isBlank c = true) hrest)
    (reads_pure _ rest)

theorem isPrefixOf_tag {c d : Char} (h : c ≠ d) (word rest : List Char) :
    ('<' :: d :: word).isPrefixOf ('<' :: c :: rest) = false := by
  simp [List.isPrefixOf,h.symm]

theorem reads_asides {c : Char} (hquestion : c ≠ '?') (hbang : c ≠ '!') (rest : List Char) :
    Reads asides ('<' :: c :: rest) [] ('<' :: c :: rest) := by
  refine ⟨⟨[],_,List.suffix_refl _⟩,?_,rfl,rfl⟩
  rw [asides]
  · simp [isBlank]
  · intro input _ heq
    exact hquestion (List.cons.inj heq).1
  · intro input _ heq
    exact hbang (List.cons.inj heq).1

/-- Nothing stands before a root element that begins the text. -/
theorem reads_prolog {c : Char} (hc : isNameStart c = true) (rest : List Char) :
    Reads prolog ('<' :: c :: rest) ⟨false,[],none,[]⟩ ('<' :: c :: rest) := by
  have hquestion : c ≠ '?' := by
    rintro rfl
    exact absurd hc (by decide)
  have hbang : c ≠ '!' := by
    rintro rfl
    exact absurd hc (by decide)
  have hatDeclaration : Reads atDeclaration ('<' :: c :: rest) false ('<' :: c :: rest) := by
    refine reads_bind ⟨_,rfl,rfl,rfl⟩ ⟨_,rfl,?_,rfl⟩
    have hstart := isPrefixOf_tag hquestion "xml".toList rest
    rw [show '<' :: '?' :: "xml".toList = "<?xml".toList by decide] at hstart
    show ("<?xml".toList.isPrefixOf ('<' :: c :: rest) && _) = false
    rw [hstart,Bool.false_and]
  have hdoctype : "<!DOCTYPE".toList.isPrefixOf ('<' :: c :: rest) = false := by
    rw [show "<!DOCTYPE".toList = '<' :: '!' :: "DOCTYPE".toList by decide]
    exact isPrefixOf_tag hbang _ _
  apply reads_bind hatDeclaration
  apply reads_bind (reads_pure false _)
  apply reads_bind (reads_asides hquestion hbang rest)
  exact reads_bind (reads_optionalWord_false hdoctype) (reads_pure _ _)

theorem readAll_of_reads {α : Type} {read : Reader α} {input : List Char} {a : α}
    (h : Reads read input a []) : read.readAll input = some a := by
  obtain ⟨⟨value,rest,hrest⟩,ht,hvalue,hnil⟩ := h
  obtain rfl : rest = [] := hnil
  rw [readAll,ht]
  exact congrArg some hvalue

theorem reads_many_end {α : Type} (begins : Char → Bool) (item : Char → Reader α) :
    Reads (many begins item) [] [] [] := ⟨⟨[],[],List.suffix_refl _⟩,by rw [many],rfl,rfl⟩

theorem pieces?_plain {cs : List Char} (h : '&' ∉ cs) : pieces? cs = some (cs.map .plain) := by
  refine readAll_of_reads ?_
  induction cs with
  | nil => exact reads_many_end _ _
  | cons c rest ih =>
    have hc : c ≠ '&' := fun he => h (by simp [he])
    refine reads_many_step rfl ?_ (ih fun hmem => h (by simp [hmem]))
    rw [piece,if_neg hc]
    exact reads_pure _ rest

theorem reads_untilMark {mark : Char} {cs : List Char} (h : mark ∉ cs) (rest : List Char) :
    Reads (untilMark [mark]) (cs ++ mark :: rest) cs rest := by
  induction cs with
  | nil => exact ⟨⟨[],rest,List.suffix_cons _ _⟩,by simp [untilMark,afterWord],rfl,rfl⟩
  | cons c more ih =>
    have hc : mark ≠ c := fun he => h (by simp [he])
    obtain ⟨t,ht,hvalue,hrest⟩ := ih fun hmem => h (by simp [hmem])
    refine ⟨⟨c :: t.value,t.rest,t.rest_suffix.trans (List.suffix_cons _ _)⟩,?_,by rw [hvalue],
      hrest⟩
    simp [untilMark,afterWord,hc,ht]

/-- A quoted literal without references. -/
theorem reads_attributeLiteral {cs : List Char} (hquote : '"' ∉ cs) (hopen : '<' ∉ cs)
    (hamp : '&' ∉ cs) (rest : List Char) :
    Reads attributeLiteral ('"' :: cs ++ '"' :: rest) (cs.map .plain) rest := by
  have hquoted : Reads quoted ('"' :: cs ++ '"' :: rest) cs rest :=
    reads_bind (reads_optionalWord "\"" (cs ++ '"' :: rest)) (reads_untilMark hquote rest)
  apply reads_bind hquoted
  apply reads_bind (reads_require (by simpa using hopen) rest)
  rw [pieces?_plain hamp]
  exact reads_pure _ rest

theorem isBlank_of_isNameStart {c : Char} (h : isNameStart c = true) : isBlank c = false := by
  cases hb : isBlank c with
  | false => rfl
  | true =>
    have hblank : c = ' ' ∨ c = '\t' ∨ c = '\n' ∨ c = '\r' := by
      simpa [isBlank,or_assoc] using hb
    rcases hblank with rfl | rfl | rfl | rfl <;> exact absurd h (by decide)

theorem IsName.exists_cons {written : List Char} (h : IsName written) :
    ∃ c more, written = c :: more ∧ isNameStart c = true := by
  cases written with
  | nil => simpa using h.starts
  | cons c more => exact ⟨c,more,rfl,by simpa using h.starts⟩

/-- An attribute of a tag, with a plain value between double quotes. -/
theorem reads_attribute {written cs : List Char} (hwritten : IsName written) (hquote : '"' ∉ cs)
    (hopen : '<' ∉ cs) (hamp : '&' ∉ cs) (rest : List Char) :
    Reads tagPart (written ++ '=' :: '"' :: cs ++ '"' :: rest)
      (some ⟨String.ofList written,cs.map .plain⟩) rest := by
  obtain ⟨c,more,rfl,hc⟩ := hwritten.exists_cons
  refine reads_bind (reads_blanks (head_of_cons (isBlank_of_isNameStart hc) _)) ?_
  refine reads_bind ⟨_,rfl,rfl,rfl⟩ ?_
  split
  · rename_i heq
    obtain rfl := Option.some.inj heq
    exact absurd hc (by decide)
  · rename_i heq
    obtain rfl := Option.some.inj heq
    exact absurd hc (by decide)
  · rw [List.append_assoc]
    refine reads_bind (reads_name hwritten (head_of_cons (by decide) _)) ?_
    refine reads_bind (reads_blanks (head_of_cons (by decide) _)) ?_
    refine reads_bind (reads_word "=" ('"' :: cs ++ '"' :: rest)) ?_
    refine reads_bind (reads_blanks (head_of_cons (by decide) _)) ?_
    exact reads_bind (reads_attributeLiteral hquote hopen hamp rest) (reads_pure _ rest)

theorem isPrefixOf_name {written : List Char} (h : IsName written) {d : Char}
    (hd : isNameStart d = false) (word tail : List Char) :
    (d :: word).isPrefixOf (written ++ tail) = false := by
  obtain ⟨c,more,rfl,hc⟩ := h.exists_cons
  have hne : d ≠ c := by
    rintro rfl
    rw [hc] at hd
    cases hd
  simp [List.isPrefixOf,hne]

/-- An opening tag with what it holds after its name. -/
theorem reads_opening {written tail rest : List Char} {attributes : List (Option RawAttribute)}
    (h : IsName written) (htail : ∀ c ∈ tail.head?, isNameChar c = false)
    (hattributes : Reads (many isBlank fun _ => tagPart) tail attributes ('>' :: rest)) :
    Reads (token '<') (written ++ tail)
      (.opening (String.ofList written) (attributes.filterMap id) false) rest := by
  refine reads_bind (reads_optionalWord_false (isPrefixOf_name h (by decide) _ _)) ?_
  refine reads_bind (reads_optionalWord_false (isPrefixOf_name h (by decide) _ _)) ?_
  refine reads_bind (reads_optionalWord_false (isPrefixOf_name h (by decide) _ _)) ?_
  refine reads_bind (reads_optionalWord_false (isPrefixOf_name h (by decide) _ _)) ?_
  apply reads_bind (reads_name h htail)
  apply reads_bind hattributes
  apply reads_bind (reads_optionalWord_false (by rfl))
  exact reads_bind (reads_word ">" rest) (reads_pure _ rest)

theorem reads_closing {written : List Char} (h : IsName written) (rest : List Char) :
    Reads (token '<') ('/' :: written ++ '>' :: rest) (.closing (String.ofList written)) rest := by
  apply reads_bind (reads_optionalWord "/" (written ++ '>' :: rest))
  apply reads_bind (reads_name h (head_of_cons (by decide) _))
  apply reads_bind (reads_blanks (head_of_cons (by decide) _))
  exact reads_bind (reads_word ">" rest) (reads_pure _ rest)

theorem hasSectionEnd_of_not_mem {cs : List Char} (h : ']' ∉ cs) : hasSectionEnd cs = false := by
  induction cs with
  | nil => rfl
  | cons c rest ih =>
    have hrest := ih fun hmem => h (by simp [hmem])
    unfold hasSectionEnd
    split
    · rename_i heq
      exact absurd (by simp [heq]) h
    · rename_i heq
      rw [← (List.cons.inj heq).2]
      exact hrest
    · rfl

/-- Character data that ends at a tag. -/
theorem reads_text {c : Char} {cs : List Char} (h : ∀ d ∈ c :: cs, d ≠ '<' ∧ d ≠ '&' ∧ d ≠ ']')
    (rest : List Char) : Reads (token c) (cs ++ '<' :: rest) (.text (c :: cs)) ('<' :: rest) := by
  have hc := h c (by simp)
  have hall : ∀ d ∈ cs, (d != '<' && d != '&') = true := by
    intro d hd
    have hne := h d (by simp [hd])
    simp [hne.1,hne.2.1]
  rw [token,if_neg hc.1,if_neg hc.2.1]
  apply reads_bind (reads_takeWhile hall (head_of_cons (by rfl) _))
  have hsection : ']' ∉ c :: cs := fun hmem => (h ']' hmem).2.2 rfl
  exact reads_bind (reads_require (by simp [hasSectionEnd_of_not_mem hsection]) _) (reads_pure _ _)

end Reader

def opened (written : String) (rest : List Char) : List Char :=
  '<' :: (written.toList ++ '>' :: rest)

def closed (written : String) (rest : List Char) : List Char :=
  '<' :: ('/' :: written.toList ++ '>' :: rest)

def openedEntry (rest : List Char) : List Char :=
  '<' :: ("data".toList ++ ' ' :: ("name".toList ++ '=' :: '"' :: ['x'] ++ '"' :: '>' :: rest))

/-- A document whose only entry has the name x and the given value. -/
def oneEntry (value : List Char) : List Char :=
  opened "root" (openedEntry (opened "value"
    (value ++ closed "value" (closed "data" (closed "root" [])))))

def IsPlain (value : List Char) : Prop :=
  value ≠ [] ∧ ∀ c ∈ value, isChar c = true ∧ c ≠ '<' ∧ c ≠ '&' ∧ c ≠ ']' ∧ c ≠ '\r'

def oneEntryTokens (value : List Char) : List Token :=
  [.opening "root" [] false,.opening "data" [⟨"name",[.plain 'x']⟩] false,
    .opening "value" [] false,.text value,.closing "value",.closing "data",.closing "root"]

theorem tokens?_oneEntry {value : List Char} (h : IsPlain value) :
    tokens? (oneEntry value) = some (oneEntryTokens value) := by
  have hroot : Reader.IsName "root".toList := .of_short rfl rfl (by decide)
  have hdata : Reader.IsName "data".toList := .of_short rfl rfl (by decide)
  have hname : Reader.IsName "name".toList := .of_short rfl rfl (by decide)
  have hvalue : Reader.IsName "value".toList := .of_short rfl rfl (by decide)
  have hgt : ∀ rest : List Char, ∀ d ∈ ('>' :: rest).head?, isNameChar d = false :=
    Reader.head_of_cons (by decide)
  have hspace : ∀ rest : List Char, ∀ d ∈ (' ' :: rest).head?, isNameChar d = false :=
    Reader.head_of_cons (by decide)
  have hstop : ∀ rest : List Char, Reader.Reads (Reader.many Reader.isBlank fun _ => Reader.tagPart)
      ('>' :: rest) [] ('>' :: rest) := fun rest => Reader.reads_many_stop (by decide) rest
  obtain ⟨c,more,rfl⟩ := List.exists_cons_of_ne_nil h.1
  have htext : ∀ d ∈ c :: more, d ≠ '<' ∧ d ≠ '&' ∧ d ≠ ']' := by
    intro d hd
    obtain ⟨-,hopen,hamp,hbracket,-⟩ := h.2 d hd
    exact ⟨hopen,hamp,hbracket⟩
  have hattribute : ∀ rest : List Char, Reader.Reads
      (Reader.many Reader.isBlank fun _ => Reader.tagPart)
      (' ' :: ("name".toList ++ '=' :: '"' :: ['x'] ++ '"' :: '>' :: rest))
      [some ⟨"name",[.plain 'x']⟩] ('>' :: rest) := fun rest =>
    Reader.reads_many_step (by decide)
      (Reader.reads_attribute hname (by decide) (by decide) (by decide) ('>' :: rest)) (hstop rest)
  refine Reader.readAll_of_reads ?_
  apply Reader.reads_many_step rfl (Reader.reads_opening hroot (hgt _) (hstop _))
  apply Reader.reads_many_step rfl (Reader.reads_opening hdata (hspace _) (hattribute _))
  apply Reader.reads_many_step rfl (Reader.reads_opening hvalue (hgt _) (hstop _))
  apply Reader.reads_many_step rfl (Reader.reads_text htext _)
  apply Reader.reads_many_step rfl (Reader.reads_closing hvalue _)
  apply Reader.reads_many_step rfl (Reader.reads_closing hdata _)
  apply Reader.reads_many_step rfl (Reader.reads_closing hroot _)
  exact Reader.reads_many_end _ _

theorem unifyLineEnds_of_not_mem {cs : List Char} (h : '\r' ∉ cs) :
    Text.unifyLineEnds cs = cs := by
  induction cs with
  | nil => rfl
  | cons c rest ih =>
    have hrest := ih fun hmem => h (by simp [hmem])
    have hc : c ≠ '\r' := fun he => h (by simp [he])
    rw [Text.unifyLineEnds]
    · rw [hrest]
    · intro _ heq
      exact absurd heq hc
    · exact hc

theorem oneEntry_eq (value : List Char) :
    oneEntry value = opened "root" (openedEntry (opened "value" [])) ++ value ++
      closed "value" (closed "data" (closed "root" [])) := by
  simp [oneEntry,opened,openedEntry]

theorem mem_oneEntry {value : List Char} {c : Char} (h : c ∈ oneEntry value) :
    c ∈ value ∨ isChar c = true ∧ c ≠ '\r' := by
  have hbefore : ∀ d ∈ opened "root" (openedEntry (opened "value" [])),
      isChar d = true ∧ d ≠ '\r' := by simp [opened,openedEntry,isChar]
  have hafter : ∀ d ∈ closed "value" (closed "data" (closed "root" [])),
      isChar d = true ∧ d ≠ '\r' := by simp [closed,isChar]
  rw [oneEntry_eq,List.mem_append,List.mem_append] at h
  rcases h with (h | h) | h
  · exact Or.inr (hbefore c h)
  · exact Or.inl h
  · exact Or.inr (hafter c h)

theorem readDocument_oneEntry {value : List Char} (h : IsPlain value) :
    readDocument (String.ofList (oneEntry value)) =
      some (.element ⟨none,"root"⟩ [] [.element ⟨none,"data"⟩ [⟨⟨none,"name"⟩,"x"⟩]
        [.element ⟨none,"value"⟩ [] [.text (String.ofList value)]]]) := by
  have hreturn : '\r' ∉ oneEntry value := by
    intro hmem
    rcases mem_oneEntry hmem with hvalue | ⟨-,hne⟩
    · exact (h.2 _ hvalue).2.2.2.2 rfl
    · exact hne rfl
  have hchars : (oneEntry value).all isChar = true := by
    refine List.all_eq_true.mpr fun c hc => ?_
    rcases mem_oneEntry hc with hvalue | ⟨hchar,-⟩
    · exact (h.2 c hvalue).1
    · exact hchar
  have hguard : guard ((oneEntry value).all isChar = true) = some () := if_pos hchars
  have hmark : Text.withoutMark (oneEntry value) = oneEntry value := rfl
  have hprolog : Reader.Reads Reader.prolog (oneEntry value) ⟨false,[],none,[]⟩ (oneEntry value) :=
    Reader.reads_prolog (by decide : isNameStart 'r' = true) _
  obtain ⟨t,ht,hvalue,hrest⟩ := hprolog
  have htokens : tokens? t.rest = some (oneEntryTokens value) := by rw [hrest,tokens?_oneEntry h]
  unfold readDocument
  rw [String.toList_ofList,hmark,unifyLineEnds_of_not_mem hreturn]
  refine Option.bind_eq_some_iff.mpr ⟨(),hguard,?_⟩
  refine Option.bind_eq_some_iff.mpr ⟨t,ht,?_⟩
  refine Option.bind_eq_some_iff.mpr ⟨_,htokens,?_⟩
  rw [hvalue]
  rfl

/-- The entry of the document comes back as it was written. -/
theorem parse_oneEntry {value : List Char} (h : IsPlain value) :
    Resx.parse (String.ofList (oneEntry value)) =
      some [⟨some "x",some (String.ofList value),none,none⟩] := by
  rw [Resx.parse,readDocument_oneEntry h,Option.map_some]
  simp [Resx.entriesOf,Resx.entryOf,Node.isElement,Node.children,Node.attribute?,Node.innerText,
    Node.innerTexts]

end Markup
end TypedResources

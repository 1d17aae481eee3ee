import TypedResources.Proofs.Markup.Characters
import TypedResources.Proofs.Markup.Syntax

/-! Reading back the tokens of written content, one lemma for each piece, each with any rest of the
text behind the piece. -/
namespace TypedResources

namespace Number

theorem isSome_digitIn?_of_mem {base : Nat} {cs : List Char} {n : Nat}
    (h : ofDigits? base cs = some n) : ∀ c ∈ cs, (digitIn? base c).isSome := by
  have hfold : ∀ (cs : List Char) (m : Nat),
      cs.foldlM (fun n c => (digitIn? base c).map fun d => base * n + d) m = some n →
        ∀ c ∈ cs, (digitIn? base c).isSome := by
    intro cs
    induction cs with
    | nil => simp
    | cons c rest ih =>
      intro m hm
      rw [List.foldlM_cons] at hm
      obtain ⟨k,hk,hrest⟩ := Option.bind_eq_some_iff.mp hm
      obtain ⟨d,hd,-⟩ := Option.map_eq_some_iff.mp hk
      exact List.forall_mem_cons.mpr ⟨by simp [hd],ih k hrest⟩
  exact hfold cs 0 h

end Number

namespace Markup
namespace Reader

theorem afterWord_eq_none {w input : List Char} (h : ¬ w <+: input) : afterWord w input = none := by
  induction w generalizing input with
  | nil => exact absurd List.nil_prefix h
  | cons c w ih =>
    cases input with
    | nil => rfl
    | cons d input =>
      rw [afterWord]
      split
      · rename_i hcd
        subst hcd
        rw [ih fun hp => h (List.cons_prefix_cons.mpr ⟨rfl,hp⟩)]
        rfl
      · rfl

/-- A text ends at a mark that does not come up before. -/
theorem reads_untilMark_of_absent {mark : List Char} (hmark : mark ≠ []) {cs : List Char}
    (h : ¬ mark <:+: cs ++ mark.dropLast) (rest : List Char) :
    Reads (untilMark mark) (cs ++ (mark ++ rest)) cs rest := by
  induction cs with
  | nil =>
    obtain ⟨c,more,rfl⟩ := List.exists_cons_of_ne_nil hmark
    have hword : Reads (afterWord (c :: more)) (c :: (more ++ rest)) () rest :=
      reads_afterWord (c :: more) rest
    obtain ⟨t,ht,-,hrest⟩ := hword
    show Reads (untilMark (c :: more)) (c :: (more ++ rest)) [] rest
    exact ⟨⟨[],t.rest,t.rest_suffix⟩,by simp only [untilMark,ht],rfl,hrest⟩
  | cons c cs ih =>
    obtain ⟨t,ht,hvalue,hrest⟩ := ih fun hin => h (hin.trans (List.suffix_cons c _).isInfix)
    have hnone : afterWord mark (c :: (cs ++ (mark ++ rest))) = none := by
      refine afterWord_eq_none fun hp => h ?_
      have hwhole : c :: cs ++ mark.dropLast <+: c :: (cs ++ (mark ++ rest)) := by
        rw [← List.cons_append,List.prefix_append_right_inj]
        exact (List.dropLast_prefix mark).trans (List.prefix_append mark rest)
      refine (List.prefix_of_prefix_length_le hp hwhole ?_).isInfix
      rw [List.length_append,List.length_cons,List.length_dropLast]
      omega
    show Reads (untilMark mark) (c :: (cs ++ (mark ++ rest))) (c :: cs) rest
    exact ⟨⟨c :: t.value,t.rest,t.rest_suffix.trans (List.suffix_cons _ _)⟩,
      by simp only [untilMark,hnone,ht,Option.map_some],by rw [hvalue],hrest⟩

end Reader

namespace Written

open Reader

theorem reads_blanksOf {cs rest : List Char} (h : IsBlanks cs)
    (hrest : ∀ c ∈ rest.head?, isBlank c = false) :
    Reads blanks (cs ++ rest) (!cs.isEmpty) rest :=
  reads_bind (reads_takeWhile h hrest) (reads_pure _ rest)

theorem mem_predefined {name : String} {c : Char} (h : predefined? name = some c) :
    name ∈ ["lt","gt","amp","quot","apos"] := by
  have hmem := Check.mem_of_lookup h
  simp only [List.mem_cons,Prod.mk.injEq,List.not_mem_nil,or_false] at hmem ⊢
  rcases hmem with h | h | h | h | h <;> simp [h.1]

theorem isName_predefined {name : String} {c : Char} (h : predefined? name = some c) :
    IsName name.toList := by
  have hmem := mem_predefined h
  simp only [List.mem_cons,List.not_mem_nil,or_false] at hmem
  rcases hmem with rfl | rfl | rfl | rfl | rfl <;> exact .of_short rfl rfl (by decide)

namespace Reference

theorem not_mem_digits {base : Nat} {digits : List Char} {c : Char}
    (h : (Number.ofDigits? base digits).bind charOfCode? = some c) {d : Char}
    (hd : Number.digitIn? base d = none) : d ∉ digits := by
  obtain ⟨n,hn,-⟩ := Option.bind_eq_some_iff.mp h
  intro hmem
  have hdigit := Number.isSome_digitIn?_of_mem hn _ hmem
  simp [hd] at hdigit

theorem digitIn?_of_digit? {c : Char} (h : Number.digit? c = none) (base : Nat) :
    Number.digitIn? base c = none := by
  rw [Number.digitIn?,h,Option.filter_none]

theorem reads_code {base : Nat} {digits : List Char} {c : Char}
    (h : (Number.ofDigits? base digits).bind charOfCode? = some c) (rest : List Char) :
    Reads (do
      let digits ← upTo ";"
      let code ← ofOption (Number.ofDigits? base digits)
      ofOption (charOfCode? code)) (digits ++ (';' :: rest)) c rest := by
  obtain ⟨n,hn,hc⟩ := Option.bind_eq_some_iff.mp h
  have hend : ';' ∉ digits := not_mem_digits h (digitIn?_of_digit? (by decide) base)
  refine reads_bind (reads_untilMark hend rest) ?_
  rw [hn,ofOption]
  refine reads_bind (reads_pure n rest) ?_
  rw [hc]
  exact reads_pure c rest

theorem reads_inner (r : Reference) (rest : List Char) :
    Reads reference (r.inner ++ rest) r.piece rest := by
  cases r with
  | entity name c known =>
    have hname := isName_predefined known
    rw [inner,List.append_assoc]
    refine reads_bind (reads_optionalWord_false (isPrefixOf_name hname (by decide) _ _)) ?_
    refine reads_bind (reads_name hname (head_of_cons (by decide) _)) ?_
    rw [String.ofList_toList]
    exact reads_bind (reads_word ";" rest) (reads_pure _ rest)
  | decimal digits c codes =>
    rw [inner,List.cons_append,List.append_assoc]
    refine reads_bind (reads_optionalWord "#" _) ?_
    refine reads_bind ?_ (reads_pure _ rest)
    refine reads_bind (reads_optionalWord_false ?_) (reads_code codes rest)
    have hx : 'x' ∉ digits := not_mem_digits codes (by decide)
    cases digits with
    | nil => rfl
    | cons d more =>
      have hne : 'x' ≠ d := fun he => hx (he ▸ List.mem_cons_self)
      simp [List.isPrefixOf,hne]
  | hexadecimal digits c codes =>
    rw [inner,List.cons_append,List.cons_append,List.append_assoc]
    refine reads_bind (reads_optionalWord "#" _) ?_
    refine reads_bind ?_ (reads_pure _ rest)
    exact reads_bind (reads_optionalWord "x" _) (reads_code codes rest)

/-- No quote and no tag begins in a reference. -/
theorem not_mem_write (r : Reference) {d : Char} (h : d = '"' ∨ d = '\'' ∨ d = '<') :
    d ∉ r.write := by
  have hdigit : Number.digit? d = none := by rcases h with rfl | rfl | rfl <;> decide
  have hmarks : d ≠ '&' ∧ d ≠ '#' ∧ d ≠ 'x' ∧ d ≠ ';' := by
    rcases h with rfl | rfl | rfl <;> decide
  cases r with
  | entity name c known =>
    have hname : d ∉ name.toList := by
      have hmem := mem_predefined known
      simp only [List.mem_cons,List.not_mem_nil,or_false] at hmem
      rcases hmem with rfl | rfl | rfl | rfl | rfl <;> rcases h with rfl | rfl | rfl <;> decide
    simp [write,inner,hname,hmarks]
  | decimal digits c codes =>
    have hdigits : d ∉ digits := not_mem_digits codes (digitIn?_of_digit? hdigit 10)
    simp [write,inner,hdigits,hmarks]
  | hexadecimal digits c codes =>
    have hdigits : d ∉ digits := not_mem_digits codes (digitIn?_of_digit? hdigit 16)
    simp [write,inner,hdigits,hmarks]

end Reference

section Parts

variable {quote : Char}

theorem pieces?_parts (parts : List (Part quote)) :
    pieces? (parts.flatMap (·.write)) = some (parts.map (·.piece)) := by
  refine readAll_of_reads ?_
  induction parts with
  | nil => exact reads_many_end _ _
  | cons part rest ih =>
    cases part with
    | plain c free =>
      refine reads_many_step rfl ?_ ih
      rw [piece,if_neg free.2.2]
      exact reads_pure _ _
    | reference r =>
      rw [List.flatMap_cons,Part.write,Reference.write,List.cons_append]
      refine reads_many_step rfl ?_ ih
      rw [piece,if_pos rfl]
      exact r.reads_inner _

theorem not_mem_parts (parts : List (Part quote)) {d : Char} (h : d = '"' ∨ d = '\'' ∨ d = '<')
    (hfree : ∀ c, c ≠ quote ∧ c ≠ '<' ∧ c ≠ '&' → d ≠ c) : d ∉ parts.flatMap (·.write) := by
  rw [List.mem_flatMap]
  rintro ⟨part,-,hmem⟩
  cases part with
  | plain c free => exact hfree c free (List.mem_singleton.mp hmem)
  | reference r => exact r.not_mem_write h hmem

/-- The value of an attribute between quotes of either kind. -/
theorem reads_parts (hquote : quote = '"' ∨ quote = '\'') (parts : List (Part quote))
    (rest : List Char) :
    Reads attributeLiteral (quote :: (parts.flatMap (·.write) ++ quote :: rest))
      (parts.map (·.piece)) rest := by
  have hclosing : quote ∉ parts.flatMap (·.write) := by
    refine not_mem_parts parts ?_ fun c hc => hc.1.symm
    rcases hquote with rfl | rfl <;> simp
  have hopen : '<' ∉ parts.flatMap (·.write) :=
    not_mem_parts parts (by simp) fun c hc => hc.2.1.symm
  have hquoted : Reads quoted (quote :: (parts.flatMap (·.write) ++ quote :: rest))
      (parts.flatMap (·.write)) rest := by
    rcases hquote with rfl | rfl
    · exact reads_bind (reads_optionalWord "\"" _) (reads_untilMark hclosing rest)
    · refine reads_bind (reads_optionalWord_false (by rfl)) ?_
      exact reads_bind (reads_word "'" _) (reads_untilMark hclosing rest)
  refine reads_bind hquoted ?_
  refine reads_bind (reads_require (by simpa using hopen) rest) ?_
  rw [pieces?_parts]
  exact reads_pure _ rest

end Parts

theorem isNameChar_of_isBlank {c : Char} (h : isBlank c = true) : isNameChar c = false := by
  have hblank : c = ' ' ∨ c = '\t' ∨ c = '\n' ∨ c = '\r' := by simpa [isBlank,or_assoc] using h
  rcases hblank with rfl | rfl | rfl | rfl <;> decide

/-- White space, and a character after it that is none. -/
theorem head_blanks {p : Char → Bool} {cs : List Char} {c : Char} (h : IsBlanks cs) {b : Bool}
    (hblank : ∀ d, isBlank d = true → p d = b) (hc : p c = b) (rest : List Char) :
    ∀ d ∈ (cs ++ c :: rest).head?, p d = b := by
  cases cs with
  | nil => exact head_of_cons hc rest
  | cons d more => exact head_of_cons (hblank d (h d (by simp))) _

theorem IsNamePart.head {cs : List Char} (h : IsNamePart cs) :
    ∃ c more, cs = c :: more ∧ isNameStart c = true ∧ c ≠ ':' := by
  cases cs with
  | nil => simpa using h.starts
  | cons c more => exact ⟨c,more,rfl,by simpa using h.starts,(h.all c (by simp)).2⟩

theorem Name.isName (n : Name) : IsName n.write := by
  refine ⟨?_,?_,n.short⟩
  · cases hq : n.qualifier with
    | none => simpa only [write,joined,hq] using n.localPart.starts
    | some q =>
      obtain ⟨c,more,rfl,hc,-⟩ := (n.qualifierPart q hq).head
      simpa [write,joined,hq] using hc
  · intro c hc
    cases hq : n.qualifier with
    | none =>
      simp only [write,joined,hq] at hc
      exact (n.localPart.all c hc).1
    | some q =>
      simp only [write,joined,hq,List.mem_append,List.mem_cons] at hc
      rcases hc with hc | rfl | hc
      · exact ((n.qualifierPart q hq).all c hc).1
      · decide
      · exact (n.localPart.all c hc).1

/-- White space in a tag, and an attribute after it. -/
theorem reads_tagPart (a : Attribute) (c : Char) (more : List Char) (hlead : a.lead = c :: more)
    (rest : List Char) :
    Reads tagPart (more ++ (a.name.write ++ (a.before ++ ('=' :: (a.after ++
      (a.quote :: (a.parts.flatMap (·.write) ++ a.quote :: rest))))))) (some a.raw) rest := by
  have hblank : IsBlanks more := fun d hd => a.leads.2 d (by simp [hlead,hd])
  have hquote : isBlank a.quote = false := by rcases a.quotes with h | h <;> rw [h] <;> decide
  obtain ⟨d,name,hname,hd⟩ := a.name.isName.exists_cons
  refine reads_bind (reads_blanksOf hblank ?_) ?_
  · rw [hname]
    exact head_of_cons (isBlank_of_isNameStart hd) _
  · refine reads_bind ⟨_,rfl,rfl,rfl⟩ ?_
    split
    · rename_i heq
      rw [hname] at heq
      obtain rfl := Option.some.inj heq
      exact absurd hd (by decide)
    · rename_i heq
      rw [hname] at heq
      obtain rfl := Option.some.inj heq
      exact absurd hd (by decide)
    · refine reads_bind (reads_name a.name.isName ?_) ?_
      · exact head_blanks a.blank.1 (fun _ => isNameChar_of_isBlank) (by decide) _
      refine reads_bind (reads_blanksOf a.blank.1 (head_of_cons (by decide) _)) ?_
      refine reads_bind (reads_word "=" _) ?_
      refine reads_bind (reads_blanksOf a.blank.2 (head_of_cons hquote _)) ?_
      exact reads_bind (reads_parts a.quotes a.parts rest) (reads_pure _ rest)

/-- White space before the end of a tag. -/
theorem reads_tagEnd {cs : List Char} (h : IsBlanks cs) {c : Char} (hc : c = '>' ∨ c = '/')
    (rest : List Char) : Reads tagPart (cs ++ c :: rest) none (c :: rest) := by
  have hblank : isBlank c = false := by rcases hc with rfl | rfl <;> decide
  refine reads_bind (reads_blanksOf h (head_of_cons hblank rest)) ?_
  refine reads_bind ⟨_,rfl,rfl,rfl⟩ ?_
  rcases hc with rfl | rfl <;> exact reads_pure none _

theorem reads_attributes (attributes : List Attribute) {tail : List Char} (htail : IsBlanks tail)
    {c : Char} (hc : c = '>' ∨ c = '/') (rest : List Char) :
    ∃ found, Reads (many isBlank fun _ => tagPart)
        (attributes.flatMap (·.write) ++ (tail ++ c :: rest)) found (c :: rest) ∧
      found.filterMap id = attributes.map (·.raw) := by
  have hstop : Reads (many isBlank fun _ => tagPart) (c :: rest) [] (c :: rest) :=
    reads_many_stop (by rcases hc with rfl | rfl <;> decide) rest
  induction attributes with
  | nil =>
    cases tail with
    | nil => exact ⟨[],hstop,rfl⟩
    | cons d more =>
      have hmore : IsBlanks more := fun e he => htail e (by simp [he])
      exact ⟨[none],reads_many_step (htail d (by simp)) (reads_tagEnd hmore hc rest) hstop,rfl⟩
  | cons a others ih =>
    obtain ⟨found,hfound,hraw⟩ := ih
    obtain ⟨d,more,hlead⟩ := List.exists_cons_of_ne_nil a.leads.1
    refine ⟨some a.raw :: found,?_,congrArg (a.raw :: ·) hraw⟩
    simp only [List.flatMap_cons,Attribute.write,hlead,List.append_assoc,List.cons_append,
      List.nil_append]
    exact reads_many_step (a.leads.2 d (by simp [hlead])) (reads_tagPart a d more hlead _) hfound

theorem head_write (a : Attribute) (rest : List Char) :
    ∀ d ∈ (a.write ++ rest).head?, isBlank d = true := by
  obtain ⟨c,more,hlead⟩ := List.exists_cons_of_ne_nil a.leads.1
  rw [Attribute.write,hlead]
  exact head_of_cons (a.leads.2 c (by simp [hlead])) _

/-- The name of a tag ends before its attributes, its white space or its end. -/
theorem head_tail (t : Tag) {c : Char} (hc : c = '>' ∨ c = '/') (rest : List Char) :
    ∀ d ∈ (t.attributes.flatMap (·.write) ++ (t.tail ++ c :: rest)).head?,
      isNameChar d = false := by
  cases h : t.attributes with
  | nil =>
    exact head_blanks t.blank (fun _ => isNameChar_of_isBlank)
      (by rcases hc with rfl | rfl <;> decide) rest
  | cons a others =>
    intro d hd
    rw [List.flatMap_cons,List.append_assoc] at hd
    exact isNameChar_of_isBlank (head_write a _ d hd)

/-- The end of a tag: that of an empty element, or that of a start tag. -/
def tagEnd (closed : Bool) : List Char := if closed then "/>".toList else ">".toList

theorem reads_tag (t : Tag) (closed : Bool) (rest : List Char) :
    Reads (token '<') (t.write ++ (tagEnd closed ++ rest)) (t.opening closed) rest := by
  have hname := t.name.isName
  obtain ⟨c,more,hend,hc⟩ : ∃ c more, tagEnd closed ++ rest = c :: more ∧ (c = '>' ∨ c = '/') := by
    cases closed
    · exact ⟨'>',rest,rfl,Or.inl rfl⟩
    · exact ⟨'/','>' :: rest,rfl,Or.inr rfl⟩
  obtain ⟨found,hfound,hraw⟩ := reads_attributes t.attributes t.blank hc more
  rw [Tag.write,List.append_assoc,List.append_assoc,hend,Tag.opening,← hraw]
  refine reads_bind (reads_optionalWord_false (isPrefixOf_name hname (by decide) _ _)) ?_
  refine reads_bind (reads_optionalWord_false (isPrefixOf_name hname (by decide) _ _)) ?_
  refine reads_bind (reads_optionalWord_false (isPrefixOf_name hname (by decide) _ _)) ?_
  refine reads_bind (reads_optionalWord_false (isPrefixOf_name hname (by decide) _ _)) ?_
  refine reads_bind (reads_name hname (head_tail t hc more)) ?_
  refine reads_bind hfound ?_
  rw [← hend]
  cases closed with
  | false =>
    refine reads_bind (reads_optionalWord_false (by rfl)) ?_
    exact reads_bind (reads_word ">" rest) (reads_pure _ rest)
  | true =>
    refine reads_bind (reads_optionalWord "/" ('>' :: rest)) ?_
    exact reads_bind (reads_word ">" rest) (reads_pure _ rest)

theorem reads_endTag (n : Name) {tail : List Char} (htail : IsBlanks tail) (rest : List Char) :
    Reads (token '<') ('/' :: (n.write ++ (tail ++ '>' :: rest))) (.closing n.shown) rest := by
  refine reads_bind (reads_optionalWord "/" _) ?_
  refine reads_bind (reads_name n.isName ?_) ?_
  · exact head_blanks htail (fun _ => isNameChar_of_isBlank) (by decide) rest
  refine reads_bind (reads_blanksOf htail (head_of_cons (by decide) rest)) ?_
  exact reads_bind (reads_word ">" rest) (reads_pure _ rest)

/-- A mark does not come up at the end of a text by what follows, if its last character does not
follow. -/
theorem infix_of_infix_append (mark : List Char) {cs tail : List Char} {c : Char} (hc : c ∉ tail)
    (h : mark ++ [c] <:+: cs ++ tail) : mark ++ [c] <:+: cs := by
  obtain ⟨before,after,heq⟩ := h
  rcases List.append_eq_append_iff.mp heq with ⟨more,hcs,-⟩ | ⟨more,hbefore,htail⟩
  · exact ⟨before,more,hcs.symm⟩
  · rcases List.eq_nil_or_concat more with rfl | ⟨init,last,rfl⟩
    · exact ⟨before,[],by rw [List.append_nil,hbefore,List.append_nil]⟩
    · have hlast : c = last := by simpa using congrArg List.getLast? hbefore
      exact absurd (by simp [htail,hlast]) hc

theorem hasSectionEnd_of_absent {cs : List Char} (h : ¬ "]]>".toList <:+: cs) :
    hasSectionEnd cs = false := by
  fun_induction hasSectionEnd cs with
  | case1 rest => exact absurd ⟨[],rest,rfl⟩ h
  | case2 c rest hno ih => exact ih fun hin => h (hin.trans (List.suffix_cons c rest).isInfix)
  | case3 => rfl

theorem IsTarget.isName {cs : List Char} (h : IsTarget cs) : IsName cs :=
  ⟨h.part.starts,fun c hc => (h.part.all c hc).1,h.short⟩

theorem reads_cdata {cs : List Char} (h : ¬ "]]>".toList <:+: cs) (rest : List Char) :
    Reads (token '<') ("![CDATA[".toList ++ (cs ++ ("]]>".toList ++ rest))) (.section cs) rest := by
  have hmark : ¬ "]]>".toList <:+: cs ++ "]]>".toList.dropLast := fun hin =>
    h (infix_of_infix_append "]]".toList (c := '>') (by decide) hin)
  refine reads_bind (reads_optionalWord_false (by rfl)) ?_
  refine reads_bind (reads_optionalWord_false (by rfl)) ?_
  refine reads_bind (reads_optionalWord "![CDATA[" _) ?_
  exact reads_bind (reads_untilMark_of_absent (by decide) hmark rest) (reads_pure _ rest)

theorem reads_comment {cs : List Char} (h : ¬ "--".toList <:+: cs ++ ['-']) (rest : List Char) :
    Reads (token '<') ("!--".toList ++ (cs ++ ("--".toList ++ (">".toList ++ rest)))) .comment
      rest := by
  refine reads_bind (reads_optionalWord_false (by rfl)) ?_
  refine reads_bind (reads_optionalWord "!--" _) ?_
  have hcomment : Reads comment (cs ++ ("--".toList ++ (">".toList ++ rest))) () rest :=
    reads_bind (reads_untilMark_of_absent (by decide) h _) (reads_word ">" rest)
  exact reads_bind hcomment (reads_pure _ rest)

/-- The text of an instruction after its target. -/
theorem reads_body {body : List Char} (happart : ∀ c ∈ body.head?, isBlank c = true)
    (h : ¬ "?>".toList <:+: body) (target : String) (rest : List Char) :
    Reads (do
      if !(← optionalWord "?>") then
        someBlanks
        let _ ← upTo "?>"
      return target) (body ++ ("?>".toList ++ rest)) target rest := by
  cases body with
  | nil => exact reads_bind (reads_optionalWord "?>" rest) (reads_pure _ rest)
  | cons c more =>
    have hc : isBlank c = true := happart c rfl
    have hne : '?' ≠ c := by
      rintro rfl
      exact absurd hc (by decide)
    refine reads_bind (reads_optionalWord_false (by simp [List.isPrefixOf,hne])) ?_
    obtain ⟨lead,left,hsplit,hlead,hleft⟩ : ∃ lead left, c :: more = c :: lead ++ left ∧
        IsBlanks (c :: lead) ∧ ∀ d ∈ left.head?, isBlank d = false := by
      refine ⟨more.takeWhile isBlank,more.dropWhile isBlank,by simp,?_,?_⟩
      · exact List.forall_mem_cons.mpr ⟨hc,List.all_eq_true.mp List.all_takeWhile⟩
      · intro d hd
        have hnot := List.head?_dropWhile_not isBlank more
        rw [Option.mem_def.mp hd] at hnot
        exact hnot
    have hmark : ¬ "?>".toList <:+: left ++ "?>".toList.dropLast := fun hin => by
      have hwithin := infix_of_infix_append ['?'] (c := '>') (by decide) hin
      exact h (hwithin.trans (hsplit ▸ (List.suffix_append (c :: lead) left).isInfix))
    have hstop : ∀ d ∈ (left ++ ("?>".toList ++ rest)).head?, isBlank d = false := by
      cases left with
      | nil => exact head_of_cons (by decide) _
      | cons d others => exact head_of_cons (hleft d rfl) _
    rw [hsplit,List.append_assoc]
    have hblanks : Reads someBlanks (c :: lead ++ (left ++ ("?>".toList ++ rest))) ()
        (left ++ ("?>".toList ++ rest)) :=
      reads_bind (reads_blanksOf hlead hstop) (reads_require rfl _)
    refine reads_bind hblanks ?_
    exact reads_bind (reads_untilMark_of_absent (by decide) hmark rest) (reads_pure target rest)

theorem reads_instruction {target body : List Char} (htarget : IsTarget target)
    (happart : ∀ c ∈ body.head?, isBlank c = true) (h : ¬ "?>".toList <:+: body)
    (rest : List Char) :
    Reads (token '<') ("?".toList ++ (target ++ (body ++ ("?>".toList ++ rest))))
      (.instruction (String.ofList target)) rest := by
  have hend : ∀ c ∈ (body ++ ("?>".toList ++ rest)).head?, isNameChar c = false := by
    cases body with
    | nil => exact head_of_cons (by decide) _
    | cons c more => exact head_of_cons (isNameChar_of_isBlank (happart c rfl)) _
  have hinstruction : Reads instruction (target ++ (body ++ ("?>".toList ++ rest)))
      (String.ofList target) rest := by
    refine reads_bind (reads_name htarget.isName hend) ?_
    refine reads_bind (reads_require (by simpa using htarget.free) _) ?_
    exact reads_body happart h (String.ofList target) rest
  refine reads_bind (reads_optionalWord_false (by rfl)) ?_
  refine reads_bind (reads_optionalWord_false (by rfl)) ?_
  refine reads_bind (reads_optionalWord_false (by rfl)) ?_
  refine reads_bind (reads_optionalWord "?" _) ?_
  exact reads_bind hinstruction (reads_pure _ rest)

/-- Character data ends at a tag, at a reference or with the text. -/
def Ends (rest : List Char) : Prop := ∀ c ∈ rest.head?, c = '<' ∨ c = '&'

theorem reads_characters {c : Char} {cs : List Char} (h : IsText (c :: cs)) {rest : List Char}
    (hrest : Ends rest) : Reads (token c) (cs ++ rest) (.text (c :: cs)) rest := by
  have hc := h.free c (by simp)
  have hall : ∀ d ∈ cs, (d != '<' && d != '&') = true := by
    intro d hd
    have hne := h.free d (by simp [hd])
    simp [hne.1,hne.2]
  have hstop : ∀ d ∈ rest.head?, (d != '<' && d != '&') = false := by
    intro d hd
    rcases hrest d hd with rfl | rfl <;> rfl
  rw [token,if_neg hc.1,if_neg hc.2]
  refine reads_bind (reads_takeWhile hall hstop) ?_
  have hnone := hasSectionEnd_of_absent h.within
  exact reads_bind (reads_require (by rw [hnone]; rfl) _) (reads_pure _ _)

/-- An atom is read back, if it is not character data that goes on behind it. -/
theorem reads_atom (a : Atom) {rest : List Char} (hrest : a.isText = true → Ends rest) :
    ∃ c more, a.write = c :: more ∧ Reads (token c) (more ++ rest) a.token rest := by
  cases a with
  | text cs proper =>
    obtain ⟨c,more,rfl⟩ := List.exists_cons_of_ne_nil proper.nonempty
    exact ⟨c,more,rfl,reads_characters proper (hrest rfl)⟩
  | cdata cs closes =>
    refine ⟨'<',_,rfl,?_⟩
    simp only [List.append_assoc]
    exact reads_cdata closes rest
  | reference r =>
    exact ⟨'&',r.inner,rfl,reads_bind (r.reads_inner rest) (reads_pure _ rest)⟩
  | comment cs closes =>
    refine ⟨'<',_,rfl,?_⟩
    simp only [List.append_assoc]
    exact reads_comment closes rest
  | instruction target body proper apart closes =>
    refine ⟨'<',_,rfl,?_⟩
    simp only [List.append_assoc]
    exact reads_instruction proper apart closes rest

theorem ends_tag (rest : List Char) : Ends ('<' :: rest) :=
  fun _ hc => Or.inl (Option.some.inj hc).symm

theorem ends_write {c : Content} (h : c.startsWithText = false) {rest : List Char}
    (hrest : Ends rest) : Ends (c.write ++ rest) := by
  cases c with
  | done => exact hrest
  | empty t more => exact ends_tag _
  | element t children tail blank more => exact ends_tag _
  | atom a more =>
    cases a with
    | text cs proper => cases h
    | cdata cs closes => exact ends_tag _
    | reference r => exact fun d hd => Or.inr (Option.some.inj hd).symm
    | comment cs closes => exact ends_tag _
    | instruction target body proper apart closes => exact ends_tag _

/-- Written content is read back to its tokens, and what follows to its own. -/
theorem reads_content {c : Content} (h : c.Separate) {rest : List Char} (hends : Ends rest)
    {more : List Token} (hrest : Reads (many (fun _ => true) token) rest more []) :
    Reads (many (fun _ => true) token) (c.write ++ rest) (c.tokens ++ more) [] := by
  induction c generalizing rest more with
  | done => exact hrest
  | atom a others ih =>
    have hothers := ih h.2 hends hrest
    obtain ⟨c,cs,hwrite,hatom⟩ := reads_atom a fun ha => ends_write (h.1 ha) hends
    rw [Content.write,hwrite,List.cons_append,List.cons_append,List.append_assoc]
    exact reads_many_step rfl hatom hothers
  | empty t others ih =>
    rw [Content.write,List.cons_append,List.append_assoc,List.append_assoc]
    exact reads_many_step rfl (reads_tag t true _) (ih h hends hrest)
  | element t children tail blank others ihchildren ih =>
    have hothers := ih h.2 hends hrest
    have hend : Reads (many (fun _ => true) token)
        ('<' :: '/' :: (t.name.write ++ (tail ++ '>' :: (others.write ++ rest))))
        (.closing t.name.shown :: (others.tokens ++ more)) [] :=
      reads_many_step rfl (reads_endTag t.name blank (others.write ++ rest)) hothers
    have hchildren := ihchildren h.1 (ends_tag _) hend
    rw [Content.write,List.cons_append,List.append_assoc]
    simp only [List.cons_append,List.append_assoc,Content.tokens]
    exact reads_many_step rfl (reads_tag t false _) hchildren

/-- The tokens of a text are those of the content that it writes. -/
theorem tokens?_write {c : Content} (h : c.Separate) : tokens? c.write = some c.tokens := by
  have hnone : Ends [] := fun c hc => by simp at hc
  have hread := reads_content h hnone (reads_many_end _ _)
  rw [List.append_nil,List.append_nil] at hread
  exact readAll_of_reads hread

end Written
end Markup
end TypedResources

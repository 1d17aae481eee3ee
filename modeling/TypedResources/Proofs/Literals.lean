import Mathlib.Data.List.Infix
import TypedResources.Proofs.Completeness

/-! String literals of a generated class. Names are put between quotes as they are, so that a
literal denotes its name exactly if there is nothing in the name to be escaped. -/
namespace TypedResources

namespace Literal

/-- Characters that end a line. A literal has to be closed before. -/
def isLineEnd (c : Char) : Bool :=
  c = '\n' || c = '\r' || c = '\u0085' || c = '\u2028' || c = '\u2029'

/-- The code units of a code point: one, or a surrogate pair. -/
def unitsOfCode (n : Nat) : List Nat :=
  if n < 0x10000 then [n] else [0xD800 + (n-0x10000)/0x400,0xDC00 + (n-0x10000)%0x400]

/-- A text in code units, which is what the value of a literal consists of. -/
def units (cs : List Char) : List Nat := cs.flatMap fun c => unitsOfCode c.toNat

def simpleEscapes : List (Char × Nat) :=
  [('\'',0x27),('"',0x22),('\\',0x5C),('0',0),('a',7),('b',8),('f',0xC),('n',0xA),('r',0xD),
    ('t',9),('v',0xB)]

def numbered? (digits : Nat) (cs : List Char) : Option (List Nat × List Char) :=
  if (cs.take digits).length = digits then
    ((Number.ofDigits? 16 (cs.take digits)).filter (· ≤ 0x10FFFF)).map
      (unitsOfCode ·,cs.drop digits)
  else none

/-- How many digits an escape of one to four digits has. -/
def digitCount (cs : List Char) : Nat :=
  ((cs.take 4).takeWhile fun c => (Number.digitIn? 16 c).isSome).length

/-- What the text after a backslash stands for, and what follows the escape. -/
def escape? : List Char → Option (List Nat × List Char)
  | [] => none
  | c :: rest =>
    if c = 'x' then if digitCount rest = 0 then none else numbered? (digitCount rest) rest
    else if c = 'u' then numbered? 4 rest
    else if c = 'U' then numbered? 8 rest
    else (simpleEscapes.lookup c).map ([·],rest)

theorem length_unitsOfCode (n : Nat) :
    1 ≤ (unitsOfCode n).length ∧ (unitsOfCode n).length ≤ 2 := by
  unfold unitsOfCode
  split <;> simp

theorem units_cons (c : Char) (rest : List Char) :
    units (c :: rest) = unitsOfCode c.toNat ++ units rest := List.flatMap_cons

theorem units_append (xs ys : List Char) : units (xs ++ ys) = units xs ++ units ys :=
  List.flatMap_append

theorem length_le_units (cs : List Char) : cs.length ≤ (units cs).length := by
  induction cs with
  | nil => simp
  | cons c rest ih =>
    have hc := (length_unitsOfCode c.toNat).1
    rw [units_cons,List.length_append,List.length_cons]
    omega

theorem length_numbered? {digits : Nat} (hpos : 0 < digits) {cs rest : List Char}
    {value : List Nat} (h : numbered? digits cs = some (value,rest)) :
    value.length + (units rest).length ≤ 1 + (units cs).length ∧ rest.length ≤ cs.length := by
  unfold numbered? at h
  split at h
  · rename_i hdigits
    obtain ⟨n,-,heq⟩ := Option.map_eq_some_iff.mp h
    obtain ⟨rfl,rfl⟩ := Prod.mk.inj heq
    have hvalue := (length_unitsOfCode n).2
    have htaken := length_le_units (cs.take digits)
    have hsplit : (units cs).length =
        (units (cs.take digits)).length + (units (cs.drop digits)).length := by
      rw [← List.length_append,← units_append,List.take_append_drop]
    rw [List.length_drop]
    omega
  · cases h

/-- No escape stands for more code units than are written after its backslash. -/
theorem length_escape? {cs rest : List Char} {value : List Nat}
    (h : escape? cs = some (value,rest)) :
    value.length + (units rest).length ≤ (units cs).length ∧ rest.length ≤ cs.length := by
  cases cs with
  | nil => cases h
  | cons c more =>
    have hc := (length_unitsOfCode c.toNat).1
    rw [units_cons,List.length_append,List.length_cons]
    have hnumbered : ∀ digits, 0 < digits → numbered? digits more = some (value,rest) →
        value.length + (units rest).length ≤ (unitsOfCode c.toNat).length + (units more).length ∧
          rest.length ≤ more.length + 1 := by
      intro digits hpos hread
      obtain ⟨hunits,hrest⟩ := length_numbered? hpos hread
      omega
    simp only [escape?] at h
    split_ifs at h with hx hnone hu hU
    · exact hnumbered _ (by omega) h
    · exact hnumbered 4 (by decide) h
    · exact hnumbered 8 (by decide) h
    · obtain ⟨n,-,heq⟩ := Option.map_eq_some_iff.mp h
      obtain ⟨rfl,rfl⟩ := Prod.mk.inj heq
      rw [List.length_singleton]
      omega

/-- The value of a literal after its opening quote, up to the first quote that is not escaped, and
what follows that quote. -/
def body? : List Char → Option (List Nat × List Char)
  | [] => none
  | c :: cs =>
    if c = '"' then some ([],cs)
    else if c = '\\' then
      match h : escape? cs with
      | none => none
      | some (value,rest) =>
        have : rest.length ≤ cs.length := (length_escape? h).2
        (body? rest).map fun (more,after) => (value ++ more,after)
    else if isLineEnd c then none
    else (body? cs).map fun (more,after) => (unitsOfCode c.toNat ++ more,after)
termination_by cs => cs.length

def read? : List Char → Option (List Nat × List Char)
  | [] => none
  | c :: cs => if c = '"' then body? cs else none

def isVerbatim (c : Char) : Bool := c != '"' && c != '\\' && !isLineEnd c

theorem body?_of_isVerbatim {c : Char} (hc : isVerbatim c = true) (cs : List Char) :
    body? (c :: cs) =
      (body? cs).map fun (more,after) => (unitsOfCode c.toNat ++ more,after) := by
  simp only [isVerbatim,Bool.and_eq_true,bne_iff_ne,ne_eq,Bool.not_eq_true'] at hc
  rw [body?,if_neg hc.1.1,if_neg hc.1.2,hc.2,if_neg Bool.false_ne_true]

theorem body?_escaped {cs after : List Char} {value : List Nat}
    (h : body? ('\\' :: cs) = some (value,after)) :
    ∃ first rest more, escape? cs = some (first,rest) ∧ body? rest = some (more,after) ∧
      value = first ++ more := by
  rw [body?,if_neg (by decide),if_pos rfl] at h
  split at h
  · cases h
  · rename_i first rest hescape
    obtain ⟨⟨more,after'⟩,hmore,heq⟩ := Option.map_eq_some_iff.mp h
    obtain ⟨rfl,rfl⟩ := Prod.mk.inj heq
    exact ⟨first,rest,more,hescape,hmore,rfl⟩

/-- What is read as a literal is at least as long as the value, quote included. -/
theorem length_body? {cs after : List Char} {value : List Nat}
    (h : body? cs = some (value,after)) :
    value.length + (units after).length + 1 ≤ (units cs).length := by
  induction hn : cs.length using Nat.strongRecOn generalizing cs value with
  | ind n ih =>
    cases cs with
    | nil => simp [body?] at h
    | cons c rest =>
      have hc := (length_unitsOfCode c.toNat).1
      rw [List.length_cons] at hn
      rw [units_cons,List.length_append]
      by_cases hquote : c = '"'
      · rw [body?,if_pos hquote] at h
        obtain ⟨rfl,rfl⟩ := Prod.mk.inj (Option.some.inj h)
        rw [List.length_nil]
        omega
      · by_cases hslash : c = '\\'
        · subst hslash
          obtain ⟨first,tail,more,hescape,hmore,rfl⟩ := body?_escaped h
          obtain ⟨hunits,htail⟩ := length_escape? hescape
          have hle := ih tail.length (by omega) hmore rfl
          rw [List.length_append]
          omega
        · rw [body?,if_neg hquote,if_neg hslash] at h
          split at h
          · cases h
          · obtain ⟨⟨more,after'⟩,hmore,heq⟩ := Option.map_eq_some_iff.mp h
            obtain ⟨rfl,rfl⟩ := Prod.mk.inj heq
            have hle := ih rest.length (by omega) hmore rfl
            rw [List.length_append]
            omega

/-- A text that starts with a character that does not stand for itself has a shorter value, if any,
than it has code units from there on. -/
theorem length_body?_of_not_isVerbatim {c : Char} (hc : isVerbatim c = false)
    {cs after : List Char} {value : List Nat} (h : body? (c :: cs) = some (value,after)) :
    value = [] ∨ value.length + (units after).length + 1 ≤ (units cs).length := by
  by_cases hquote : c = '"'
  · rw [body?,if_pos hquote] at h
    exact .inl (Prod.mk.inj (Option.some.inj h)).1.symm
  by_cases hslash : c = '\\'
  · subst hslash
    obtain ⟨first,tail,more,hescape,hmore,rfl⟩ := body?_escaped h
    have hescaped := (length_escape? hescape).1
    have hbody := length_body? hmore
    rw [List.length_append]
    omega
  · have hline : isLineEnd c = true := by simpa [isVerbatim,hquote,hslash] using hc
    rw [body?,if_neg hquote,if_neg hslash,if_pos hline] at h
    cases h

/-- A name between quotes is read back as the name exactly if all its characters stand for
themselves. An escape does not help, since it stands for less than is written. -/
theorem read?_quoted_iff (name after : List Char) :
    read? ('"' :: name ++ '"' :: after) = some (units name,after) ↔
      ∀ c ∈ name, isVerbatim c = true := by
  rw [List.cons_append,read?,if_pos rfl]
  induction name with
  | nil => simp [body?,units]
  | cons c rest ih =>
    cases hc : isVerbatim c with
    | true =>
      rw [List.cons_append,body?_of_isVerbatim hc,units_cons,List.forall_mem_cons,← ih,
        Option.map_eq_some_iff]
      refine ⟨?_,fun h => ⟨_,h.2,rfl⟩⟩
      rintro ⟨⟨more,after'⟩,hmore,heq⟩
      obtain ⟨hunits,rfl⟩ := Prod.mk.inj heq
      exact ⟨hc,hmore.trans (by rw [List.append_cancel_left hunits])⟩
    | false =>
      refine iff_of_false (fun h => ?_) fun h => by simp [hc] at h
      rw [List.cons_append] at h
      have hpos := (length_unitsOfCode c.toNat).1
      rcases length_body?_of_not_isVerbatim hc h with hnil | hle
      · rw [← List.length_eq_zero_iff,units_cons,List.length_append] at hnil
        omega
      · have hclosing : (units ('"' :: after)).length = 1 + (units after).length := by
          rw [units_cons,List.length_append]
          rfl
        rw [units_append,List.length_append,hclosing,units_cons,List.length_append] at hle
        omega

/-- The last quotes of a line hold a name, and what they enclose is one whole literal that has the
name for its value. -/
def Denotes (line name : String) : Prop :=
  ∃ before after, line.toList = before ++ '"' :: name.toList ++ '"' :: after ∧ '"' ∉ after ∧
    read? ('"' :: name.toList ++ '"' :: after) = some (units name.toList,after)

def Verbatim (name : String) : Prop := ∀ c ∈ name.toList, isVerbatim c = true

instance (name : String) : Decidable (Verbatim name) :=
  List.decidableBAll (isVerbatim · = true) name.toList

theorem denotes_iff {line before name after : String} (hline : line = before ++ "\"" ++ name ++
    "\"" ++ after) (hafter : '"' ∉ after.toList) : Denotes line name ↔ Verbatim name := by
  constructor
  · rintro ⟨_,after',-,-,hread⟩
    exact (read?_quoted_iff _ _).mp hread
  · intro h
    refine ⟨before.toList,after.toList,?_,hafter,(read?_quoted_iff _ _).mpr h⟩
    simp [hline,String.toList_append]

end Literal

theorem Text.not_mem_commaSeparated {c : Char} (hc : c ≠ ',' ∧ c ≠ ' ') {xs : List String}
    (h : ∀ x ∈ xs, c ∉ x.toList) : c ∉ (commaSeparated xs).toList := by
  induction xs using commaSeparated.induct with
  | case1 => simp [commaSeparated]
  | case2 x => simpa [commaSeparated] using h
  | case3 x rest hrest ih =>
    rw [commaSeparated.eq_3 x rest hrest]
    simp only [String.toList_append,List.mem_append,not_or]
    exact ⟨⟨h x (by simp),by simp [hc]⟩,ih fun y hy => h y (by simp [hy])⟩

namespace Accessor

/-- What a call starts with, on the line after the head of its member. -/
def arrow : String := "            => "

theorem column_of_call {line : String} (hcall : arrow.toList <+: line.toList) :
    line.toList[8]? = some ' ' := by
  obtain ⟨rest,hrest⟩ := hcall
  rw [← hrest]
  simp [arrow]

theorem quote_not_mem_arguments (n : Nat) : '"' ∉ (arguments n).toList := by
  refine Text.not_mem_commaSeparated (by decide) fun x hx => ?_
  obtain ⟨i,-,rfl⟩ := List.mem_map.mp hx
  rw [argument,String.toList_append,List.mem_append,not_or]
  exact ⟨by decide,fun hmem => absurd (isDigit_of_mem_toString hmem) (by decide)⟩

theorem quoted_of_stringProperty {shared name summary line : String}
    (hline : line ∈ stringProperty shared name summary) (hcall : arrow.toList <+: line.toList) :
    ∃ before after, line = before ++ "\"" ++ name ++ "\"" ++ after ∧ '"' ∉ after.toList := by
  have hcolumn := column_of_call hcall
  simp only [stringProperty,List.mem_cons,List.not_mem_nil,or_false] at hline
  rcases hline with rfl | rfl | rfl | rfl
  · simp at hcolumn
  · simp at hcolumn
  · exact ⟨"            => GetString(",");",String.toList_inj.mp (by simp),by decide⟩
  · simp at hcolumn

theorem quoted_of_formatMethod {shared name summary given passed parameters line : String} {n : Nat}
    (hline : line ∈ formatMethod shared name summary given passed parameters (arguments n))
    (hcall : arrow.toList <+: line.toList) :
    ∃ before after, line = before ++ "\"" ++ name ++ "\"" ++ after ∧ '"' ∉ after.toList := by
  have hcolumn := column_of_call hcall
  simp only [formatMethod,List.mem_cons,List.not_mem_nil,or_false] at hline
  rcases hline with rfl | rfl | rfl | rfl
  · simp at hcolumn
  · simp at hcolumn
  · refine ⟨"            => GetString(" ++ passed,", " ++ arguments n ++ ");",
      String.toList_inj.mp (by simp),?_⟩
    simp [quote_not_mem_arguments]
  · simp at hcolumn

/-- Every call of an accessor ends in its quoted name and what is passed after the name. -/
theorem quoted_of_call {a : Accessor} {shared line : String} (hline : line ∈ a.lines shared)
    (hcall : arrow.toList <+: line.toList) :
    ∃ before after, line = before ++ "\"" ++ a.name ++ "\"" ++ after ∧ '"' ∉ after.toList := by
  cases a with
  | object name typeName =>
    have hcolumn := column_of_call hcall
    simp only [lines,List.mem_cons,List.not_mem_nil,or_false] at hline
    rcases hline with rfl | rfl | rfl
    · simp at hcolumn
    · exact ⟨"            => (global::" ++ typeName ++ "?)GetObject(",");",
        String.toList_inj.mp (by simp [Accessor.name]),by decide⟩
    · simp at hcolumn
  | text name summary arity =>
    cases arity with
    | none =>
      rw [lines,List.append_nil] at hline
      exact quoted_of_stringProperty hline hcall
    | some n =>
      rw [lines_formatted,List.mem_append,List.mem_append] at hline
      rcases hline with (hline | hline) | hline
      · exact quoted_of_stringProperty hline hcall
      · exact quoted_of_formatMethod hline hcall
      · exact quoted_of_formatMethod hline hcall

theorem name_ofEntry {name : String} {e : Entry} {a : Accessor} (h : ofEntry name e = .ok a) :
    a.name = name := by
  unfold ofEntry at h
  split at h
  · obtain ⟨summary,-,h⟩ := Except.bind_eq_ok_iff.mp h
    obtain ⟨arity,-,h⟩ := Except.bind_eq_ok_iff.mp h
    obtain rfl := Except.ok.inj h
    rfl
  · obtain rfl := Except.ok.inj h
    rfl

end Accessor

namespace AccessorClass

theorem quoted_constantLine (name : String) :
    constantLine name = "        public const string @" ++ Identifier.sanitize name ++ " = " ++
      "\"" ++ name ++ "\"" ++ ";" := by
  have hopen : " = \"" = " = " ++ "\"" := by decide
  have hclose : "\";" = "\"" ++ ";" := by decide
  unfold constantLine
  rw [hopen,hclose]
  simp only [String.append_assoc]

theorem names_accessors {scope : Option String} {style : Plumbing.Style} {entries : List Entry}
    {c : AccessorClass} (h : ofEntries scope style entries = .ok c) :
    (c.accessors.map (·.name)).Perm c.names := by
  obtain ⟨accessors,hmade,hc⟩ := Except.bind_eq_ok_iff.mp h
  obtain rfl := Except.ok.inj hc
  have hnames : accessors.map (·.name) = (sortByName (named entries)).map (·.1) := by
    have hall : List.Forall₂ (· = ·) ((sortByName (named entries)).map (·.1))
        (accessors.map (·.name)) := by
      rw [List.forall₂_map_left_iff,List.forall₂_map_right_iff]
      exact (Except.forall₂_of_mapM hmade).imp fun x a ha => (Accessor.name_ofEntry ha).symm
    rw [List.forall₂_eq_eq_eq] at hall
    exact hall.symm
  rw [hnames]
  exact (List.mergeSort_perm _ _).map _

/-- The literals of a class denote the names that they are made from exactly if these need no
escapes: the one of each constant, and the one of each call. -/
theorem literals_denote_verbatim_names {scope : Option String} {style : Plumbing.Style}
    {entries : List Entry} {c : AccessorClass} (h : ofEntries scope style entries = .ok c) :
    c.names = entries.filterMap (·.accessorName?) ∧
    (∀ name ∈ c.names, Literal.Denotes (constantLine name) name ↔ Literal.Verbatim name) ∧
    (c.accessors.map (·.name)).Perm c.names ∧
    ∀ a ∈ c.accessors, ∀ line ∈ a.lines c.style.shared, Accessor.arrow.toList <+: line.toList →
      (Literal.Denotes line a.name ↔ Literal.Verbatim a.name) := by
  refine ⟨?_,fun name _ => ?_,names_accessors h,fun a _ line hline hcall => ?_⟩
  · obtain ⟨accessors,-,hc⟩ := Except.bind_eq_ok_iff.mp h
    obtain rfl := Except.ok.inj hc
    exact map_fst_named entries
  · exact Literal.denotes_iff (quoted_constantLine name) (by decide)
  · obtain ⟨before,after,hquoted,hafter⟩ := Accessor.quoted_of_call hline hcall
    exact Literal.denotes_iff hquoted hafter

/-- A name with a quote in it, and one that is no identifier but needs no escapes. -/
def quotedEntries : List Entry :=
  [⟨some "a\"b",some "v",none,none⟩,⟨some "1st.Value",some "v",none,none⟩]

theorem literals_break_at_quote :
    ∃ c, ofEntries none ⟨"Strings","Strings",false,true⟩ quotedEntries = .ok c ∧
      c.names = ["a\"b","1st.Value"] ∧
      ¬ Literal.Denotes (constantLine "a\"b") "a\"b" ∧
      Literal.Denotes (constantLine "1st.Value") "1st.Value" := by
  have hentries : ∀ e ∈ quotedEntries, e.Clean ∧
      ∀ v ∈ e.value, v.toList.length ≤ Number.maxDecimalDigits := by
    intro e he
    simp only [quotedEntries,List.mem_cons,List.not_mem_nil,or_false] at he
    rcases he with rfl | rfl <;> refine ⟨?_,by simp [Number.maxDecimalDigits]⟩ <;> constructor <;>
      simp [Markup.Clean,Markup.isChar]
  obtain ⟨c,hc⟩ := ofEntries_isOk (fun e he => (hentries e he).1) (fun e he => (hentries e he).2)
    none ⟨"Strings","Strings",false,true⟩
  obtain ⟨hnames,hconstants,-⟩ := literals_denote_verbatim_names hc
  have hboth : c.names = ["a\"b","1st.Value"] := hnames
  refine ⟨c,hc,hboth,?_,?_⟩
  · rw [hconstants _ (by simp [hboth])]
    simp [Literal.Verbatim,Literal.isVerbatim]
  · rw [hconstants _ (by simp [hboth])]
    simp [Literal.Verbatim,Literal.isVerbatim,Literal.isLineEnd]

end AccessorClass

end TypedResources

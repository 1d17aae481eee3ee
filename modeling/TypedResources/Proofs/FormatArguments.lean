import TypedResources.Proofs.FormatTexts
import TypedResources.Proofs.TypedAccessors

/-! Whether the format methods of an accessor take enough arguments. They pass all of them on to a
lookup, which formats the text with them. There is one argument more than the highest index that the
scan of the text finds, which is enough unless the scan misses an item of a higher index. -/
namespace TypedResources

namespace Plumbing

/-- The body of the lookup that formats: a text that is found is formatted with the arguments. -/
def formattingBody : List String :=
  ["        \x7b",
    "            culture ??= Culture;",
    "            string? str = ResourceManager.GetString(name, culture);",
    "            if (str == null)",
    "            \x7b",
    "                return null;",
    "            \x7d",
    "",
    "            if (args != null)",
    "            \x7b",
    "                return string.Format(culture, str, args);",
    "            \x7d",
    "            else",
    "            \x7b",
    "                return str;",
    "            \x7d",
    "        \x7d",
    ""]

/-- The lookup that formats, and the one without a culture, which passes its arguments on to it. -/
def formattingLookup (shared : String) : List String :=
  ["        public " ++ shared ++ ("string? GetString(" ++
      "global::System.Globalization.CultureInfo? culture, string name, params object?[]? args)")] ++
  formattingBody ++
  ["        public " ++ shared ++ "string? GetString(string name, params object?[]? args)",
    "            => GetString(culture: null, name: name, args: args);",
    ""]

theorem formattingLookup_infix (s : Style) : formattingLookup s.shared <:+: lines s := by
  have hbody : body (["culture ??= Culture;",
      "string? str = ResourceManager.GetString(name, culture);","if (str == null)","\x7b",
      "    return null;","\x7d",""] ++ formatFound) = formattingBody := by decide
  have hcall : calls "GetString(culture: null, name: name, args: args)" =
      ["            => GetString(culture: null, name: name, args: args);",""] := by decide
  have hhead : "string? GetString(" ++ culture ++
      " culture, string name, params object?[]? args)" = "string? GetString(" ++
        "global::System.Globalization.CultureInfo? culture, string name, params object?[]? args)" :=
    by decide
  have hstrings : formattingLookup s.shared <:+: stringLines s := by
    unfold stringLines
    rw [hbody,hcall,hhead]
    simp only [formattingLookup,declare,List.append_assoc]
    exact ⟨["        public " ++ s.shared ++ ("string? GetString(" ++ culture ++
      " culture, string name)")] ++ calls "GetString(culture: culture, name: name, args: null)",_,
      by simp only [List.append_assoc]; rfl⟩
  have hmore : stringLines s <:+: lines s := by
    unfold lines
    exact ⟨_,defaultedLines s,rfl⟩
  exact hstrings.trans hmore

end Plumbing

namespace AccessorClass

/-- Under the name there are two format methods with so many parameters, which pass all of them on,
in their order, to the lookup that formats. -/
structure FormatsWith (c : AccessorClass) (name : String) (count : Nat) : Prop where
  methods : ∃ summary parameters arguments,
    Accessor.formatMethod c.style.shared name summary
        "global::System.Globalization.CultureInfo? provider, " "provider, " parameters arguments ++
      Accessor.formatMethod c.style.shared name summary "" "" parameters arguments <:+: c.lines ∧
    Text.items parameters = ((List.range count).map fun i => "object? arg" ++ toString i) ∧
    Text.items arguments = (List.range count).map fun i => "arg" ++ toString i
  lookup : Plumbing.formattingLookup c.style.shared <:+: c.lines

theorem formattingLookup_infix_lines (c : AccessorClass) :
    Plumbing.formattingLookup c.style.shared <:+: c.lines := by
  have hopening : Plumbing.lines c.style <:+: c.opening := (List.suffix_append _ _).isInfix
  have hlines : c.opening <:+: c.lines := by
    rw [lines,List.append_assoc,List.append_assoc,List.append_assoc]
    exact (List.prefix_append _ _).isInfix
  exact ((Plumbing.formattingLookup_infix c.style).trans hopening).trans hlines

/-- A text entry with an arity gets its format methods in every class that it is in. -/
theorem formatsWith_of_arity {scope : Option String} {style : Plumbing.Style}
    {entries : List Entry} {c : AccessorClass} (h : ofEntries scope style entries = .ok c)
    {e : Entry} (he : e ∈ entries) {name : String} (hname : e.accessorName? = some name)
    (htext : e.isText = true) {n : Nat} (harity : Placeholder.arity e.value = .ok (some n)) :
    c.FormatsWith name (n + 1) := by
  obtain ⟨a,-,ha,hlines⟩ := exists_accessor h he hname
  rw [Accessor.ofEntry,if_pos htext,harity] at ha
  obtain ⟨summary,-,hmade⟩ := Except.bind_eq_ok_iff.mp ha
  obtain rfl := Except.ok.inj hmade
  rw [Accessor.lines_formatted,List.append_assoc] at hlines
  exact ⟨⟨summary,Accessor.parameters n,Accessor.arguments n,
    (List.suffix_append _ _).isInfix.trans hlines,Accessor.items_parameters n,
    Accessor.items_arguments n⟩,formattingLookup_infix_lines c⟩

end AccessorClass

namespace FormatText

open Placeholder Number

/-- No index in the text is higher. -/
def Reaches (f : List Segment) (n : Nat) : Prop := ∀ i, .item i ∈ f → i.number ≤ n

/-- The text has an arity, which is at least the index of every item. -/
def Served (f : List Segment) : Prop :=
  ∃ n, arity (some (String.ofList (text f))) = .ok (some n) ∧ Reaches f n

/-- No item has an alignment, and no escaped open brace has digits and a colon right behind it. -/
structure Plain (f : List Segment) : Prop where
  unaligned : ∀ i, .item i ∈ f → i.alignment = none
  undiverted : ∀ front back digits rest, f = front ++ .openBrace :: back →
    text back = digits ++ ':' :: rest → ¬ IsIndex digits

theorem Plain.not_misses {f : List Segment} (h : Plain f) (i : Item) : ¬ Misses f i := by
  rintro ⟨front,back,rfl,halignment | ⟨outer,inner,digits,rest,rfl,hinner,hdigits,-⟩⟩
  · exact halignment (h.unaligned i (by simp))
  · have hback : text (inner ++ .item i :: back) =
        digits ++ ':' :: (rest ++ text (.item i :: back)) := by
      rw [text_append,hinner]
      simp
    exact h.undiverted outer _ digits _ (by simp) hback hdigits

/-- The arity of a format text is the highest index that counts in it. -/
theorem arity_text_eq_some_iff (f : List Segment) (n : Nat) :
    arity (some (String.ofList (text f))) = .ok (some n) ↔
      (∀ digits, Counts f digits → digits.length ≤ 4300) ∧
        (∃ digits, Counts f digits ∧ decimalValue digits = n) ∧
        ∀ digits, Counts f digits → decimalValue digits ≤ n := by
  rw [(highest_arity _).highest,String.toList_ofList]
  simp only [List.mem_map,forall_exists_index,and_imp,forall_apply_eq_imp_iff₂,
    mem_indexes_text_iff]

theorem exists_arity_text {f : List Segment}
    (hshort : ∀ digits, Misreads f digits → digits.length ≤ 4300) :
    ∃ answer, arity (some (String.ofList (text f))) = .ok answer := by
  refine ⟨_,(arity_eq_ok_iff _ _).mpr ⟨fun digits h => ?_,rfl⟩⟩
  rw [String.toList_ofList,mem_indexes_text_iff] at h
  rcases h with ⟨i,-,rfl⟩ | hmisread
  · exact i.length_le
  · exact hshort digits hmisread

/-- A text with an arity is served exactly if the items that the scan misses have no higher indexes
than those that count. -/
theorem served_iff {f : List Segment} (hitem : ∃ i, .item i ∈ f)
    (hshort : ∀ digits, Misreads f digits → digits.length ≤ 4300) :
    Served f ↔ ∀ i, Misses f i → ∃ digits, Counts f digits ∧ i.number ≤ decimalValue digits := by
  constructor
  · rintro ⟨n,harity,hreaches⟩ i ⟨front,back,rfl,-⟩
    obtain ⟨-,⟨digits,hcounts,rfl⟩,-⟩ := (arity_text_eq_some_iff _ _).mp harity
    exact ⟨digits,hcounts,hreaches i (by simp)⟩
  · intro hmissed
    have hcounted : ∀ i, .item i ∈ f → ∃ digits, Counts f digits ∧
        i.number ≤ decimalValue digits := by
      intro i hi
      rcases reads_or_misses hi with hread | hmiss
      · exact ⟨i.index,.inl ⟨i,hread,rfl⟩,Nat.le_refl _⟩
      · exact hmissed i hmiss
    obtain ⟨answer,harity⟩ := exists_arity_text hshort
    cases answer with
    | none =>
      obtain ⟨i,hi⟩ := hitem
      obtain ⟨digits,hcounts,-⟩ := hcounted i hi
      have hnone := (highest_arity _).unnumbered.mp harity
      rw [String.toList_ofList] at hnone
      rw [← mem_indexes_text_iff,hnone] at hcounts
      cases hcounts
    | some n =>
      obtain ⟨-,-,hhighest⟩ := (arity_text_eq_some_iff f n).mp harity
      refine ⟨n,harity,fun i hi => ?_⟩
      obtain ⟨digits,hcounts,hle⟩ := hcounted i hi
      exact hle.trans (hhighest digits hcounts)

/-- The value of a text entry is a composite format text. Then the arity is at least the index of
each item exactly if no item that the scan misses has a higher index than all digits that count, and
the format methods take more arguments than the highest index. The scan misses items with an
alignment, and items behind escaped open braces with digits and a colon. -/
theorem format_methods_reach_items {f : List Segment} {e : Entry} (htext : e.isText = true)
    (hvalue : e.value = some (String.ofList (text f))) (hitem : ∃ i, .item i ∈ f)
    (hshort : ∀ digits, Misreads f digits → digits.length ≤ 4300) :
    (∃ answer, arity e.value = .ok answer) ∧
    (Served f ↔ ∀ i, Misses f i → ∃ digits, Counts f digits ∧ i.number ≤ decimalValue digits) ∧
    (Plain f → Served f) ∧
    (Served f → ∀ entries scope style name, e ∈ entries → e.accessorName? = some name →
      (∀ c, AccessorClass.ofEntries scope style entries = .ok c →
        ∃ n, arity e.value = .ok (some n) ∧ Reaches f n ∧ c.FormatsWith name (n + 1)) ∧
      ((∀ x ∈ entries, x.Clean ∧ (x ≠ e → ¬ x.IsOverlong)) →
        ∃ c, AccessorClass.ofEntries scope style entries = .ok c)) := by
  refine ⟨?_,served_iff hitem hshort,?_,?_⟩
  · rw [hvalue]
    exact exists_arity_text hshort
  · intro hplain
    exact (served_iff hitem hshort).mpr fun i hmiss => absurd hmiss (hplain.not_misses i)
  · rintro ⟨n,hn,hreaches⟩ entries scope style name he hname
    rw [← hvalue] at hn
    refine ⟨fun c hc => ⟨n,hn,hreaches,AccessorClass.formatsWith_of_arity hc he hname htext hn⟩,?_⟩
    intro hentries
    cases hc : AccessorClass.ofEntries scope style entries with
    | ok c => exact ⟨c,rfl⟩
    | error failure =>
      obtain ⟨-,x,hx,hlong⟩ := (AccessorClass.ofEntries_eq_error (fun x hx => (hentries x hx).1)
        scope style failure).mp hc
      by_cases hxe : x = e
      · have herror := (arity_eq_error e.value .longIndex).mpr ⟨rfl,hxe ▸ hlong.2.2⟩
        rw [hn] at herror
        cases herror
      · exact absurd hlong ((hentries x hx).2 hxe)

/-- An item of one digit, perhaps with an alignment and a format. -/
def digitItem (c : Char) (digit : isDecimalDigit c = true) (alignment : Option Alignment)
    (format : Option (List Char)) (unbraced : ∀ cs ∈ format, '\x7b' ∉ cs ∧ '\x7d' ∉ cs) : Item :=
  ⟨[c],alignment,format,⟨by simp,by simpa using digit⟩,by simp,unbraced⟩

def zeroItem : Item := digitItem '0' rfl none none (by simp)

def alignedItem : Item :=
  digitItem '1' rfl (some ⟨1,true,['4'],by simp,by simp [isDecimalDigit]⟩) none (by simp)

def formattedItem : Item := digitItem '2' rfl none (some ['N','2']) (by simp)

def priceText : List Segment :=
  [.openBrace,.literal 'x' (by decide),.closeBrace,.item alignedItem,.literal ' ' (by decide),
    .item formattedItem]

def priceEntry : Entry := ⟨some "Price",some (String.ofList (text priceText)),none,none⟩

theorem length_le_of_misreads {f : List Segment} (h : (text f).length ≤ 4300) {digits : List Char}
    (hmisread : Misreads f digits) : digits.length ≤ 4300 :=
  (length_le_of_mem_indexes ((mem_indexes_text_iff f digits).mpr (.inr hmisread))).trans h

theorem clean_priceEntry : priceEntry.Clean := by
  refine ⟨?_,?_,by simp [priceEntry]⟩
  · rintro s ⟨⟩
    exact Markup.clean_text (by decide)
  · rintro s ⟨⟩
    exact Markup.clean_text (by decide)

/-- The aligned item is missed, but the other one has a higher index. -/
theorem price_methods_reach_items : priceEntry.isText = true ∧
    text priceText = "\x7b\x7bx\x7d\x7d\x7b1, -4\x7d \x7b2:N2\x7d".toList ∧
    priceEntry.value = some (String.ofList (text priceText)) ∧ (∃ i, .item i ∈ priceText) ∧
    (∀ digits, Misreads priceText digits → digits.length ≤ 4300) ∧ Served priceText ∧
    ∃ c, AccessorClass.ofEntries none ⟨"Texts","Texts",false,true⟩ [priceEntry] = .ok c ∧
      Reaches priceText 2 ∧ c.FormatsWith "Price" 3 := by
  have htext : text priceText = "\x7b\x7bx\x7d\x7d\x7b1, -4\x7d \x7b2:N2\x7d".toList := by decide
  have hcounts : Counts priceText ['2'] := by
    rw [← mem_indexes_text_iff,indexes_eq_taken]
    decide
  have hitem : ∃ i, .item i ∈ priceText := ⟨formattedItem,by simp [priceText]⟩
  have hshort : ∀ digits, Misreads priceText digits → digits.length ≤ 4300 :=
    fun digits h => length_le_of_misreads (by decide) h
  have hreaches : Reaches priceText 2 := by
    intro i hi
    simp only [priceText,List.mem_cons,Segment.item.injEq,reduceCtorEq,List.not_mem_nil,or_false,
      false_or] at hi
    rcases hi with rfl | rfl <;> decide
  have hisText : priceEntry.isText = true := rfl
  obtain ⟨-,hiff,-,hoffered⟩ := format_methods_reach_items hisText rfl hitem hshort
  have hserved : Served priceText := by
    refine hiff.mpr ?_
    rintro i ⟨front,back,hf,-⟩
    exact ⟨['2'],hcounts,hreaches i (by simp [hf])⟩
  obtain ⟨hmethods,hmade⟩ := hoffered hserved [priceEntry] none ⟨"Texts","Texts",false,true⟩ "Price"
    (by simp) rfl
  obtain ⟨c,hc⟩ := hmade (by simpa using clean_priceEntry)
  obtain ⟨n,harity,-,hformats⟩ := hmethods c hc
  have htwo : arity priceEntry.value = .ok (some 2) := by
    refine (arity_eq_ok_iff _ _).mpr ?_
    rw [String.toList_ofList,indexes_eq_taken]
    decide
  obtain rfl : 2 = n := Option.some.inj (Except.ok.inj (htwo.symm.trans harity))
  exact ⟨rfl,htext,rfl,hitem,hshort,hserved,c,hc,hreaches,hformats⟩

theorem not_served_of_lt {f : List Segment} {i : Item} (hi : .item i ∈ f) {n : Nat}
    (harity : arity (some (String.ofList (text f))) = .ok (some n)) (hn : n < i.number) :
    ¬ Served f := by
  rintro ⟨m,hm,hreaches⟩
  obtain rfl : n = m := Option.some.inj (Except.ok.inj (harity.symm.trans hm))
  exact absurd (hreaches i hi) (Nat.not_le.mpr hn)

def alignedPair : List Segment := [.item zeroItem,.literal ' ' (by decide),.item alignedItem]

def divertedText : List Segment :=
  [.openBrace,.literal '0' (by decide),.literal ':' (by decide),.literal ' ' (by decide),
    .item formattedItem]

/-- The text `{{00…0}}{0}`, with so many zeros in the escaped braces. -/
def zerosText (count : Nat) : List Segment :=
  .openBrace :: (List.replicate count (.literal '0' (by decide)) ++ [.closeBrace,.item zeroItem])

theorem misreads_zerosText {count : Nat} (h : count ≠ 0) :
    Misreads (zerosText count) (List.replicate count '0') := by
  refine ⟨[],_,text [.closeBrace,.item zeroItem],rfl,?_,⟨?_,?_⟩,.inl rfl,?_⟩
  · rw [text_append]
    congr 1
    rw [text,List.flatMap_replicate]
    exact List.flatten_replicate_singleton
  · rwa [ne_eq,List.replicate_eq_nil_iff]
  · intro c hc
    rw [(List.mem_replicate.mp hc).2]
    rfl
  · rintro ⟨front,back,digits,rest,hnil,-⟩
    simp at hnil

/-- An aligned item is missed, and so is one behind an escaped brace with digits and a colon. Too
many digits in escaped braces leave a text without an arity. -/
theorem format_methods_fall_short :
    (text alignedPair = "\x7b0\x7d \x7b1, -4\x7d".toList ∧ .item alignedItem ∈ alignedPair ∧
      arity (some "\x7b0\x7d \x7b1, -4\x7d") = .ok (some 0) ∧ ¬ Served alignedPair) ∧
    (text divertedText = "\x7b\x7b0: \x7b2:N2\x7d".toList ∧ .item formattedItem ∈ divertedText ∧
      arity (some "\x7b\x7b0: \x7b2:N2\x7d") = .ok (some 0) ∧ ¬ Served divertedText) ∧
    .item zeroItem ∈ zerosText 4301 ∧
      arity (some (String.ofList (text (zerosText 4301)))) = .error .longIndex ∧
      ¬ Served (zerosText 4301) := by
  have hzero : ∀ f, (pieces (text f)).filterMap taken? = [['0']] →
      arity (some (String.ofList (text f))) = .ok (some 0) := by
    intro f h
    rw [arity_eq_ok_iff,String.toList_ofList,indexes_eq_taken,h]
    decide
  have hpair := hzero alignedPair (by decide)
  have hdiverted := hzero divertedText (by decide)
  have hoverlong : arity (some (String.ofList (text (zerosText 4301)))) = .error .longIndex := by
    refine (arity_eq_error _ _).mpr ⟨rfl,_,rfl,List.replicate 4301 '0',?_,?_⟩
    · rw [String.toList_ofList]
      exact (mem_indexes_text_iff _ _).mpr (.inr (misreads_zerosText (by decide)))
    · rw [List.length_replicate]
      decide
  have haligned : .item alignedItem ∈ alignedPair := by simp [alignedPair]
  have hformatted : .item formattedItem ∈ divertedText := by simp [divertedText]
  refine ⟨⟨by decide,haligned,hpair,not_served_of_lt haligned hpair (by decide)⟩,
    ⟨by decide,hformatted,hdiverted,not_served_of_lt hformatted hdiverted (by decide)⟩,
    List.mem_cons_of_mem _ (List.mem_append_right _ (by simp)),hoverlong,?_⟩
  rintro ⟨n,hn,-⟩
  rw [hoverlong] at hn
  cases hn

end FormatText

end TypedResources

import TypedResources.General.List
import TypedResources.Proofs.Placeholders

/-! Composite format texts, and which of their items the scan for placeholders finds. A format text
consists of literal characters, escaped braces and items, and an item may have an alignment and a
format. The scan knows neither escapes nor alignments: it passes over aligned items, and an escaped
open brace with digits behind it begins a placeholder like any other brace. -/
namespace TypedResources

namespace Placeholder

open Number

def IsIndex (digits : List Char) : Prop :=
  digits ≠ [] ∧ ∀ c ∈ digits, isDecimalDigit c = true

def Completes (rest : List Char) : Prop :=
  rest.head? = some '\x7d' ∨ rest.head? = some ':' ∧ '\x7d' ∈ rest

/-- A placeholder with a format has begun in the text, and it is not complete at the end. -/
def LeftOpen (before : List Char) : Prop :=
  ∃ front digits format, before = front ++ '\x7b' :: (digits ++ ':' :: format) ∧
    IsIndex digits ∧ '\x7d' ∉ format

theorem IsIndex.not_mem {digits : List Char} (h : IsIndex digits) {c : Char}
    (hc : isDecimalDigit c = false) : c ∉ digits := by
  intro hmem
  rw [h.2 c hmem] at hc
  cases hc

theorem IsIndex.head_ne {digits : List Char} (h : IsIndex digits) {c : Char}
    (hc : isDecimalDigit c = false) (rest more : List Char) : digits ++ rest ≠ c :: more := by
  obtain ⟨d,ds,rfl⟩ := List.exists_cons_of_ne_nil h.1
  intro heq
  obtain ⟨rfl,-⟩ := List.cons.inj heq
  exact h.not_mem hc (by simp)

/-- Where an index ends is told by the first character that is no digit. -/
theorem IsIndex.append_inj {digits other rest more : List Char} (h : IsIndex digits)
    (hother : IsIndex other) (hrest : rest.head?.all (isDecimalDigit · == false) = true)
    (hmore : more.head?.all (isDecimalDigit · == false) = true)
    (heq : digits ++ rest = other ++ more) : digits = other ∧ rest = more := by
  have hstop : ∀ tail : List Char, tail.head?.all (isDecimalDigit · == false) = true →
      tail.takeWhile isDecimalDigit = [] := by
    intro tail htail
    cases tail with
    | nil => rfl
    | cons c cs =>
      have hc : isDecimalDigit c = false := by simpa using htail
      exact List.takeWhile_cons_of_neg (by simp [hc])
  have htake := congrArg (List.takeWhile isDecimalDigit) heq
  rw [List.takeWhile_append_of_pos h.2,List.takeWhile_append_of_pos hother.2,hstop rest hrest,
    hstop more hmore,List.append_nil,List.append_nil] at htake
  subst htake
  exact ⟨rfl,List.append_cancel_left heq⟩

theorem not_leftOpen_nil : ¬ LeftOpen [] := by
  rintro ⟨front,digits,format,h,-⟩
  simp at h

theorem leftOpen_append_close (piece before : List Char) :
    LeftOpen (piece ++ '\x7d' :: before) ↔ LeftOpen before := by
  constructor
  · rintro ⟨front,digits,format,heq,hdigits,hformat⟩
    have hbrace : '\x7d' ∉ '\x7b' :: (digits ++ ':' :: format) := by
      simp [hdigits.not_mem (show isDecimalDigit '\x7d' = false by decide),hformat]
    obtain ⟨middle,-,hbefore⟩ := List.exists_middle_of_not_mem_rest hbrace heq
    exact ⟨middle,digits,format,hbefore,hdigits,hformat⟩
  · rintro ⟨front,digits,format,rfl,hdigits,hformat⟩
    exact ⟨piece ++ '\x7d' :: front,digits,format,by simp,hdigits,hformat⟩

/-- An open brace at the end leaves nothing open that was not. -/
theorem leftOpen_append_brace (before : List Char) :
    LeftOpen (before ++ ['\x7b']) ↔ LeftOpen before := by
  constructor
  · rintro ⟨front,digits,format,heq,hdigits,hformat⟩
    rcases List.eq_nil_or_concat format with rfl | ⟨init,c,rfl⟩
    · have hsplit : before ++ ['\x7b'] = (front ++ '\x7b' :: digits) ++ [':'] := by
        simpa using heq
      obtain ⟨-,hlast⟩ := List.append_inj' hsplit rfl
      simp at hlast
    · rw [List.concat_eq_append] at heq hformat
      have hsplit : before ++ ['\x7b'] =
          (front ++ '\x7b' :: (digits ++ ':' :: init)) ++ [c] := by
        simpa using heq
      obtain ⟨hbefore,-⟩ := List.append_inj' hsplit rfl
      exact ⟨front,digits,init,hbefore,hdigits,fun hmem => hformat (by simp [hmem])⟩
  · rintro ⟨front,digits,format,rfl,hdigits,hformat⟩
    exact ⟨front,digits,format ++ ['\x7b'],by simp,hdigits,by simp [hformat]⟩

theorem completes_append {middle : List Char} (h : '\x7d' ∉ middle) (rest : List Char) :
    Completes (middle ++ '\x7d' :: rest) ↔ middle.head?.all (· == ':') = true := by
  cases middle with
  | nil => simp [Completes]
  | cons c cs =>
    rw [List.mem_cons,not_or] at h
    simp [Completes,Ne.symm h.1]

theorem Completes.head?_all {rest : List Char} (h : Completes rest) :
    rest.head?.all (isDecimalDigit · == false) = true := by
  rcases h with h | ⟨h,-⟩ <;> rw [h] <;> rfl

theorem opened?_eq_some_iff (cs digits : List Char) : opened? cs = some digits ↔
    ∃ rest, cs = '\x7b' :: (digits ++ rest) ∧ IsIndex digits ∧
      rest.head?.all (· == ':') = true := by
  constructor
  · intro h
    unfold opened? at h
    split at h
    · rename_i tail
      split at h
      · rename_i hopened
        obtain rfl := Option.some.inj h
        exact ⟨tail.dropWhile isDecimalDigit,by rw [List.takeWhile_append_dropWhile],
          ⟨hopened.1,fun c hc => List.mem_takeWhile_imp hc⟩,hopened.2⟩
      · cases h
    · cases h
  · rintro ⟨rest,rfl,hdigits,hrest⟩
    have htake : rest.takeWhile isDecimalDigit = [] ∧ rest.dropWhile isDecimalDigit = rest := by
      cases rest with
      | nil => exact ⟨rfl,rfl⟩
      | cons c cs =>
        obtain rfl : c = ':' := by simpa using hrest
        exact ⟨rfl,rfl⟩
    rw [opened?,List.takeWhile_append_of_pos hdigits.2,List.dropWhile_append_of_pos hdigits.2,
      htake.1,htake.2,List.append_nil,if_pos ⟨hdigits.1,hrest⟩]

/-- A placeholder that is opened at the head of a piece has a format that runs over every later
brace. -/
theorem eq_nil_of_not_leftOpen {piece found before tail : List Char} (h : '\x7d' ∉ piece)
    (ho : opened? piece = some found) (heq : piece = before ++ '\x7b' :: tail)
    (hopen : ¬ LeftOpen before) : before = [] := by
  obtain ⟨rest,rfl,hfound,hrest⟩ := (opened?_eq_some_iff _ _).mp ho
  cases before with
  | nil => rfl
  | cons b before =>
    obtain ⟨rfl,hfrom⟩ := List.cons.inj heq
    obtain ⟨middle,rfl,rfl⟩ := List.exists_middle_of_not_mem_front
      (hfound.not_mem (by decide)) hfrom
    cases middle with
    | nil => simp at hrest
    | cons d format =>
      obtain rfl : d = ':' := by simpa using hrest
      exact absurd ⟨[],found,format,rfl,hfound,fun hmem => h (by simp [hmem])⟩ hopen

/-- A piece gives the digits behind an open brace before which no placeholder is left open. -/
theorem taken?_eq_some_iff {piece : List Char} (h : '\x7d' ∉ piece) (digits : List Char) :
    taken? piece = some digits ↔ ∃ before rest, piece = before ++ '\x7b' :: (digits ++ rest) ∧
      IsIndex digits ∧ rest.head?.all (· == ':') = true ∧ ¬ LeftOpen before := by
  induction piece with
  | nil => simp [taken?,opened?]
  | cons c cs ih =>
    rw [List.mem_cons,not_or] at h
    rw [taken?_cons]
    cases ho : opened? (c :: cs) with
    | some found =>
      obtain ⟨rest,hcons,hfound,hrest⟩ := (opened?_eq_some_iff _ _).mp ho
      rw [Option.some_or,Option.some.injEq]
      constructor
      · rintro rfl
        exact ⟨[],rest,hcons,hfound,hrest,not_leftOpen_nil⟩
      · rintro ⟨before,more,heq,hdigits,hmore,hopen⟩
        obtain rfl := eq_nil_of_not_leftOpen (by simpa using h) ho heq hopen
        have hsame := (opened?_eq_some_iff _ _).mpr ⟨more,heq,hdigits,hmore⟩
        exact Option.some.inj (ho.symm.trans hsame)
    | none =>
      -- Nothing opens at the head, so the head leaves nothing open either.
      rw [Option.none_or,ih h.2]
      constructor
      · rintro ⟨before,rest,rfl,hdigits,hrest,hopen⟩
        refine ⟨c :: before,rest,rfl,hdigits,hrest,?_⟩
        rintro ⟨front,found,format,heq,hfound,hformat⟩
        cases front with
        | nil =>
          have hhead : opened? (c :: (before ++ '\x7b' :: (digits ++ rest))) = some found := by
            refine (opened?_eq_some_iff _ _).mpr
              ⟨':' :: (format ++ '\x7b' :: (digits ++ rest)),?_,hfound,rfl⟩
            rw [← List.cons_append,heq]
            simp
          rw [ho] at hhead
          cases hhead
        | cons b front => exact hopen ⟨front,found,format,(List.cons.inj heq).2,hfound,hformat⟩
      · rintro ⟨before,rest,heq,hdigits,hrest,hopen⟩
        cases before with
        | nil =>
          rw [(opened?_eq_some_iff _ _).mpr ⟨rest,heq,hdigits,hrest⟩] at ho
          cases ho
        | cons b before =>
          obtain ⟨rfl,hcs⟩ := List.cons.inj heq
          refine ⟨before,rest,hcs,hdigits,hrest,?_⟩
          rintro ⟨front,found,format,rfl,hfound,hformat⟩
          exact hopen ⟨c :: front,found,format,rfl,hfound,hformat⟩

/-- The scan finds the digits behind each open brace that they complete to a placeholder, unless
another placeholder is left open before the brace. -/
theorem mem_indexes_iff (cs digits : List Char) : digits ∈ indexes cs ↔
    ∃ before rest, cs = before ++ '\x7b' :: (digits ++ rest) ∧ IsIndex digits ∧ Completes rest ∧
      ¬ LeftOpen before := by
  induction cs using piece_induction with
  | last cs h =>
    rw [indexes_eq_nil h]
    refine iff_of_false List.not_mem_nil ?_
    rintro ⟨before,rest,rfl,-,hrest,-⟩
    have hmem : '\x7d' ∈ rest := hrest.elim List.mem_of_mem_head? And.right
    exact h (by simp [hmem])
  | next piece tail h ih =>
    rw [indexes_append h,List.mem_append,Option.mem_toList,taken?_eq_some_iff h,ih]
    constructor
    · rintro (⟨before,rest,rfl,hdigits,hrest,hopen⟩ | ⟨before,rest,rfl,hdigits,hrest,hopen⟩)
      · have hbrace : '\x7d' ∉ rest := fun hmem => h (by simp [hmem])
        exact ⟨before,rest ++ '\x7d' :: tail,by simp,hdigits,
          (completes_append hbrace tail).mpr hrest,hopen⟩
      · refine ⟨piece ++ '\x7d' :: before,rest,by simp,hdigits,hrest,?_⟩
        rwa [leftOpen_append_close]
    · rintro ⟨before,rest,heq,hdigits,hrest,hopen⟩
      rcases List.append_eq_append_iff.mp heq with ⟨middle,rfl,hmiddle⟩ | ⟨middle,rfl,hmiddle⟩
      · -- The brace stands behind the first close brace.
        cases middle with
        | nil => simp at hmiddle
        | cons c middle =>
          obtain ⟨rfl,rfl⟩ := List.cons.inj hmiddle
          rw [leftOpen_append_close] at hopen
          exact .inr ⟨middle,rest,rfl,hdigits,hrest,hopen⟩
      · -- The brace stands in the first piece, and so do the digits.
        cases middle with
        | nil => simp at hmiddle
        | cons c middle =>
          obtain ⟨rfl,hfrom⟩ := List.cons.inj hmiddle
          obtain ⟨format,rfl,rfl⟩ := List.exists_middle_of_not_mem_front
            (hdigits.not_mem (by decide)) hfrom
          have hbrace : '\x7d' ∉ format := fun hmem => h (by simp [hmem])
          exact .inl ⟨before,format,rfl,hdigits,(completes_append hbrace tail).mp hrest,hopen⟩

end Placeholder

namespace FormatText

open Placeholder Number

/-- The width in which an item is shown, perhaps towards the left. -/
structure Alignment where
  spaces : Nat
  isLeft : Bool
  width : List Char
  isIndex : IsIndex width

def Alignment.text (a : Alignment) : List Char :=
  ',' :: (List.replicate a.spaces ' ' ++ (if a.isLeft then ['-'] else []) ++ a.width)

structure Item where
  index : List Char
  alignment : Option Alignment
  format : Option (List Char)
  isIndex : IsIndex index
  length_le : index.length ≤ 4300
  unbraced : ∀ cs ∈ format, '\x7b' ∉ cs ∧ '\x7d' ∉ cs

namespace Item

def number (i : Item) : Nat := decimalValue i.index

def options (i : Item) : List Char :=
  i.alignment.elim [] Alignment.text ++ i.format.elim [] (':' :: ·)

end Item

inductive Segment
  | literal (c : Char) (unbraced : c ≠ '\x7b' ∧ c ≠ '\x7d')
  | openBrace
  | closeBrace
  | item (i : Item)

def Segment.text : Segment → List Char
  | literal c _ => [c]
  | openBrace => ['\x7b','\x7b']
  | closeBrace => ['\x7d','\x7d']
  | item i => '\x7b' :: (i.index ++ i.options ++ ['\x7d'])

def text (f : List Segment) : List Char := f.flatMap Segment.text

/-- An escaped open brace with digits and a colon behind it stands in the text, and no close brace
comes after them. -/
def Diverts (f : List Segment) : Prop :=
  ∃ front back digits rest, f = front ++ .openBrace :: back ∧
    text back = digits ++ ':' :: rest ∧ IsIndex digits ∧ '\x7d' ∉ rest

/-- The item has no alignment, and nothing diverts the scan before it. -/
def Reads (f : List Segment) (i : Item) : Prop :=
  ∃ front back, f = front ++ .item i :: back ∧ i.alignment = none ∧ ¬ Diverts front

/-- The item has an alignment, or something diverts the scan before it. -/
def Misses (f : List Segment) (i : Item) : Prop :=
  ∃ front back, f = front ++ .item i :: back ∧ (i.alignment ≠ none ∨ Diverts front)

/-- The digits stand behind an escaped open brace, and are completed to a placeholder there. -/
def Misreads (f : List Segment) (digits : List Char) : Prop :=
  ∃ front back rest, f = front ++ .openBrace :: back ∧ text back = digits ++ rest ∧
    IsIndex digits ∧ Completes rest ∧ ¬ Diverts front

/-- The digits count as an index, those of an item or those behind an escaped brace. -/
def Counts (f : List Segment) (digits : List Char) : Prop :=
  (∃ i, Reads f i ∧ i.index = digits) ∨ Misreads f digits

theorem Alignment.not_mem_text (a : Alignment) : '\x7b' ∉ a.text ∧ '\x7d' ∉ a.text := by
  have hwidth : '\x7b' ∉ a.width ∧ '\x7d' ∉ a.width :=
    ⟨a.isIndex.not_mem (by decide),a.isIndex.not_mem (by decide)⟩
  cases h : a.isLeft <;> simp [text,h,hwidth]

namespace Item

theorem not_mem_options (i : Item) : '\x7b' ∉ i.options ∧ '\x7d' ∉ i.options := by
  have halignment : '\x7b' ∉ i.alignment.elim [] Alignment.text ∧
      '\x7d' ∉ i.alignment.elim [] Alignment.text := by
    cases i.alignment with
    | none => simp
    | some a => exact a.not_mem_text
  have hformat : '\x7b' ∉ i.format.elim [] (':' :: ·) ∧ '\x7d' ∉ i.format.elim [] (':' :: ·) := by
    cases h : i.format with
    | none => simp
    | some cs =>
      have hcs := i.unbraced cs h
      simp [hcs]
  simp only [options,List.mem_append,not_or]
  exact ⟨⟨halignment.1,hformat.1⟩,halignment.2,hformat.2⟩

theorem brace_not_mem (i : Item) : '\x7b' ∉ i.index ++ i.options ++ ['\x7d'] := by
  have hindex := i.isIndex.not_mem (show isDecimalDigit '\x7b' = false by decide)
  simp [hindex,i.not_mem_options.1]

/-- Behind the index of an item there is no further digit. -/
theorem head?_options (i : Item) (rest : List Char) :
    (i.options ++ '\x7d' :: rest).head?.all (isDecimalDigit · == false) = true := by
  unfold options
  cases i.alignment with
  | some a => rfl
  | none => cases i.format <;> rfl

/-- An item is a placeholder exactly when it has no alignment. -/
theorem completes_options_iff (i : Item) (rest : List Char) :
    Completes (i.options ++ '\x7d' :: rest) ↔ i.alignment = none := by
  rw [completes_append i.not_mem_options.2]
  unfold options
  cases i.alignment with
  | some a => simp [Alignment.text]
  | none => cases i.format <;> simp

end Item

theorem text_append (f g : List Segment) : text (f ++ g) = text f ++ text g := List.flatMap_append

theorem text_cons (s : Segment) (f : List Segment) : text (s :: f) = s.text ++ text f :=
  List.flatMap_cons

/-- Each character of a format text stands in one of its segments. -/
theorem exists_segment {f : List Segment} {before after : List Char} {c : Char}
    (h : text f = before ++ c :: after) : ∃ front s back inner outer, f = front ++ s :: back ∧
      s.text = inner ++ c :: outer ∧ before = text front ++ inner ∧ after = outer ++ text back := by
  induction f generalizing before with
  | nil => simp [text] at h
  | cons s rest ih =>
    have hlater : ∀ middle, before = s.text ++ middle → text rest = middle ++ c :: after →
        ∃ front s' back inner outer, s :: rest = front ++ s' :: back ∧
          s'.text = inner ++ c :: outer ∧ before = text front ++ inner ∧
          after = outer ++ text back := by
      rintro middle rfl hrest
      obtain ⟨front,s',back,inner,outer,rfl,hs,rfl,rfl⟩ := ih hrest
      exact ⟨s :: front,s',back,inner,outer,rfl,hs,by rw [text_cons,List.append_assoc],rfl⟩
    rw [text_cons] at h
    rcases List.append_eq_append_iff.mp h with ⟨middle,hbefore,hrest⟩ | ⟨middle,hs,hafter⟩
    · exact hlater middle hbefore hrest
    · cases middle with
      | nil => exact hlater [] (by rw [hs,List.append_nil,List.append_nil]) hafter.symm
      | cons d outer =>
        obtain ⟨rfl,rfl⟩ := List.cons.inj hafter
        exact ⟨[],s,rest,before,outer,rfl,hs,rfl,rfl⟩

/-- An open brace of a segment is one of an escaped brace, or it begins an item. -/
theorem Segment.split_at_brace {s : Segment} {inner outer : List Char}
    (h : s.text = inner ++ '\x7b' :: outer) :
    (s = .openBrace ∧ (inner = [] ∧ outer = ['\x7b'] ∨ inner = ['\x7b'] ∧ outer = [])) ∨
      ∃ i, s = .item i ∧ inner = [] ∧ outer = i.index ++ i.options ++ ['\x7d'] := by
  have hmem : '\x7b' ∈ s.text := by
    rw [h]
    simp
  cases s with
  | literal c unbraced => exact absurd (List.mem_singleton.mp hmem).symm unbraced.1
  | closeBrace => simp [text] at hmem
  | openBrace =>
    refine .inl ⟨rfl,?_⟩
    rw [text] at h
    rcases inner with _ | ⟨b,_ | ⟨c,more⟩⟩
    · exact .inl ⟨rfl,(List.cons.inj h).2.symm⟩
    · simp only [List.cons_append,List.nil_append,List.cons.injEq,true_and] at h
      exact .inr ⟨by rw [← h.1],h.2.symm⟩
    · simp at h
  | item i =>
    refine .inr ⟨i,rfl,?_⟩
    rw [text] at h
    cases inner with
    | nil => exact ⟨rfl,(List.cons.inj h).2.symm⟩
    | cons b more =>
      refine absurd ?_ i.brace_not_mem
      rw [(List.cons.inj h).2]
      simp

/-- An open brace with an index behind it is the second one of an escaped brace, or it begins an
item. -/
theorem split_at_index {f : List Segment} {before digits rest : List Char}
    (h : text f = before ++ '\x7b' :: (digits ++ rest)) (hdigits : IsIndex digits) :
    (∃ front back, f = front ++ .openBrace :: back ∧ before = text front ++ ['\x7b'] ∧
      text back = digits ++ rest) ∨
    ∃ front i back, f = front ++ .item i :: back ∧ before = text front ∧
      digits ++ rest = i.index ++ (i.options ++ '\x7d' :: text back) := by
  obtain ⟨front,s,back,inner,outer,rfl,hs,rfl,hafter⟩ := exists_segment h
  rcases Segment.split_at_brace hs with
    ⟨rfl,⟨rfl,rfl⟩ | ⟨rfl,rfl⟩⟩ | ⟨i,rfl,rfl,rfl⟩
  · exact absurd hafter (hdigits.head_ne (by decide) _ _)
  · exact .inl ⟨front,back,rfl,rfl,hafter.symm⟩
  · exact .inr ⟨front,i,back,rfl,List.append_nil _,by simpa using hafter⟩

/-- A placeholder is left open in a format text exactly if the scan is diverted there. -/
theorem leftOpen_text_iff (f : List Segment) : LeftOpen (text f) ↔ Diverts f := by
  constructor
  · rintro ⟨before,digits,format,heq,hdigits,hformat⟩
    rcases split_at_index heq hdigits with ⟨front,back,rfl,-,hback⟩ | ⟨front,i,back,rfl,-,hitem⟩
    · exact ⟨front,back,digits,format,rfl,hback,hdigits,hformat⟩
    · have hmem : '\x7d' ∈ digits ++ ':' :: format := by
        rw [hitem]
        simp
      simp [hdigits.not_mem (show isDecimalDigit '\x7d' = false by decide),hformat] at hmem
  · rintro ⟨front,back,digits,format,rfl,hback,hdigits,hformat⟩
    refine ⟨text front ++ ['\x7b'],digits,format,?_,hdigits,hformat⟩
    rw [text_append,text_cons,hback]
    simp [Segment.text]

/-- The scan of a format text finds what counts in it. -/
theorem mem_indexes_text_iff (f : List Segment) (digits : List Char) :
    digits ∈ indexes (text f) ↔ Counts f digits := by
  rw [mem_indexes_iff]
  constructor
  · rintro ⟨before,rest,heq,hdigits,hrest,hopen⟩
    rcases split_at_index heq hdigits with ⟨front,back,rfl,rfl,hback⟩ | ⟨front,i,back,rfl,rfl,hitem⟩
    · rw [leftOpen_append_brace,leftOpen_text_iff] at hopen
      exact .inr ⟨front,back,rest,rfl,hback,hdigits,hrest,hopen⟩
    · obtain ⟨rfl,rfl⟩ := hdigits.append_inj i.isIndex hrest.head?_all (i.head?_options _) hitem
      rw [leftOpen_text_iff] at hopen
      exact .inl ⟨i,⟨front,back,rfl,(i.completes_options_iff _).mp hrest,hopen⟩,rfl⟩
  · rintro (⟨i,⟨front,back,rfl,halignment,hdivert⟩,rfl⟩ |
      ⟨front,back,rest,rfl,hback,hdigits,hrest,hdivert⟩)
    · refine ⟨text front,i.options ++ '\x7d' :: text back,?_,i.isIndex,
        (i.completes_options_iff _).mpr halignment,?_⟩
      · rw [text_append,text_cons]
        simp [Segment.text]
      · rwa [leftOpen_text_iff]
    · refine ⟨text front ++ ['\x7b'],rest,?_,hdigits,hrest,?_⟩
      · rw [text_append,text_cons,hback]
        simp [Segment.text]
      · rwa [leftOpen_append_brace,leftOpen_text_iff]

theorem reads_or_misses {f : List Segment} {i : Item} (h : .item i ∈ f) :
    Reads f i ∨ Misses f i := by
  obtain ⟨front,back,rfl⟩ := List.append_of_mem h
  by_cases hread : i.alignment = none ∧ ¬ Diverts front
  · exact .inl ⟨front,back,rfl,hread⟩
  · rw [not_and_or,not_not] at hread
    exact .inr ⟨front,back,rfl,hread⟩

end FormatText
end TypedResources

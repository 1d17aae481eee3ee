import TypedResources.General.List
import TypedResources.Proofs.Rendering
import TypedResources.Proofs.Writing

/-! Doc comments hold their texts. Every line but the first stands behind the mark, and the lines
without their marks are a document that is read to the texts of the paragraphs. -/
namespace TypedResources

namespace Summary

open Markup Markup.Written Resx

/-- What stands before the text on every line of the comment but the first. -/
def mark : List Char := "        /// ".toList

theorem markLines_cons (c : Char) (cs : List Char) : markLines (c :: cs) =
    if c = '\n' then '\n' :: (mark ++ markLines cs) else c :: markLines cs := by
  have hmark : lineMark = '\n' :: mark := by decide
  rw [markLines,List.flatMap_cons,hmark]
  split <;> rfl

/-- The lines of a text are those that the marks stand at, each but the first. -/
theorem splitOn_markLines (cs : List Char) : ∃ first rest, cs.splitOn '\n' = first :: rest ∧
    (markLines cs).splitOn '\n' = first :: rest.map (mark ++ ·) := by
  induction cs with
  | nil => exact ⟨[],[],rfl,rfl⟩
  | cons c cs ih =>
    obtain ⟨first,rest,hlines,hmarked⟩ := ih
    rw [markLines_cons]
    by_cases hc : c = '\n'
    · refine ⟨[],first :: rest,?_,?_⟩
      · rw [hc,List.splitOn_cons_eq_if_modifyHead,if_pos (beq_self_eq_true _),hlines]
      · have hmark : '\n' ∉ mark := by decide
        rw [if_pos hc,List.splitOn_cons_eq_if_modifyHead,if_pos (beq_self_eq_true _),
          List.splitOn_append_of_not_mem hmark,hmarked]
        rfl
    · have hne : ¬ (c == '\n') = true := by simpa using hc
      refine ⟨c :: first,rest,?_,?_⟩
      · rw [List.splitOn_cons_eq_if_modifyHead,if_neg hne,hlines]
        rfl
      · rw [if_neg hc,List.splitOn_cons_eq_if_modifyHead,if_neg hne,hmarked]
        rfl

/-- The children of a summary: a paragraph for each of the texts, and white space around them. A
paragraph holds nothing but its text. -/
inductive Lists : List Node → List String → Prop
  | done (gap : String) (blank : IsBlanks gap.toList) : Lists [.text gap] []
  | paragraph (gap : String) (blank : IsBlanks gap.toList) (inner : List Node)
      (plain : ∀ n ∈ inner, ∃ text, n = .text text) {others : List Node} {texts : List String}
      (rest : Lists others texts) :
      Lists (.text gap :: .element ⟨none,"para"⟩ [] inner :: others) (Node.innerTexts inner :: texts)

def IsSummary (root : Node) (texts : List String) : Prop :=
  ∃ children, root = .element ⟨none,"summary"⟩ [] children ∧ Lists children texts

def summaryName : Name := nameOf "summary" (.of_all rfl (by decide)) (by decide)

def paraName : Name := nameOf "para" (.of_all rfl (by decide)) (by decide)

structure IsListing (c : Content) (texts : List String) : Prop where
  write : c.write = '\n' :: texts.flatMap paragraph
  separate : c.Separate
  bound : c.Bound []
  identities : c.identities = []
  height : c.height ≤ 1
  lists : Lists (c.nodes []) texts

theorem exists_isListing (texts : List String) : ∃ c, IsListing c texts := by
  induction texts with
  | nil =>
    have hblank : IsBlanks ['\n'] := by simp [IsBlanks,Reader.isBlank]
    exact ⟨.atom (.text ['\n'] (hblank.isText (by simp))) .done,rfl,⟨fun _ => rfl,trivial⟩,trivial,rfl,
      Nat.zero_le 1,.done "\n" hblank⟩
  | cons text others ih =>
    obtain ⟨rest,hrest⟩ := ih
    obtain ⟨c,hc⟩ := exists_shows spells_escape text.toList
    have hblank : IsBlanks ['\n',' ',' '] := by simp [IsBlanks,Reader.isBlank]
    refine ⟨.atom (.text ['\n',' ',' '] (hblank.isText (by simp))) (enclosed paraName c rest),?_,
      ⟨fun _ => rfl,hc.separate,hrest.separate⟩,?_,?_,?_,?_⟩
    · rw [Content.write,write_enclosed,hc.write,hrest.write,List.flatMap_cons]
      unfold paragraph
      simp [Atom.write,escapeText,paraName,write_nameOf]
    · rw [Content.Bound]
      exact hc.bound_enclosed rfl hrest.bound
    · rw [Content.identities,hc.identities_enclosed rfl,hrest.identities]
    · rw [Content.height,hc.height_enclosed,Nat.max_eq_left hrest.height]
    · have htext : Node.innerTexts (c.nodes []) = text := String.toList_inj.mp hc.text
      have hpara : Lists (.text "\n  " :: .element ⟨none,"para"⟩ [] (c.nodes []) :: rest.nodes [])
          (Node.innerTexts (c.nodes []) :: others) :=
        .paragraph "\n  " hblank _ (c.bound_of_flat hc.flat []).2.2 hrest.lists
      rw [Content.nodes,nodes_enclosed rfl,← htext]
      exact hpara

theorem return_not_mem_escape (c : Char) : '\r' ∉ escape c := by
  unfold escape
  split <;> simp_all
  rintro rfl
  simp_all

theorem return_not_mem_element (texts : List String) : '\r' ∉ element texts := by
  have htexts : '\r' ∉ texts.flatMap paragraph := by
    rw [List.mem_flatMap]
    rintro ⟨text,-,htext⟩
    unfold paragraph at htext
    simp [escapeText,return_not_mem_escape] at htext
  unfold element
  simp [htexts]

theorem clean_element {texts : List String} (h : ∀ text ∈ texts, Clean text.toList) :
    Clean (element texts) := by
  have hparagraphs : Clean (texts.flatMap paragraph) := by
    intro c hc
    obtain ⟨text,htext,hmem⟩ := List.mem_flatMap.mp hc
    have hescaped : Clean (escapeText text.toList) := clean_flatMap clean_escape (h text htext)
    exact ((clean_of_all (by decide)).append hescaped).append (clean_of_all (by decide)) c hmem
  exact ((clean_of_all (by decide)).append hparagraphs).append (clean_of_all (by decide))

/-- The document whose root element is a summary of the content. -/
def around (c : Content) : Written.Document where
  encoding := none
  lead := []
  root := plainTag summaryName
  children := c
  tail := []
  after := []
  named name hname := by simp at hname
  leads := isBlanks_nil
  tails := isBlanks_nil
  follows := isBlanks_nil

/-- The element that is written of the texts is read back to them. -/
theorem readDocument_element {texts : List String} (h : ∀ text ∈ texts, Clean text.toList) :
    ∃ root, readDocument (String.ofList (element texts)) = some root ∧ IsSummary root texts := by
  obtain ⟨c,hc⟩ := exists_isListing texts
  have hplain : (plainTag summaryName).IsPlain := isPlain_plainTag rfl
  have hwrite : (around c).write = element texts := by
    unfold element
    simp [around,Written.Document.write,Written.Document.content,declaration,Content.write,hc.write,
      Tag.write,plainTag,summaryName,write_nameOf,write_ofBlanks]
  have hproper : (around c).Proper := by
    refine Document.proper_of_isPlain hplain hc.separate hc.bound ?_ ?_
    · rw [around,hc.identities]
      exact List.nodup_nil
    · rw [hwrite]
      exact clean_element h
  have hshallow : (around c).depth ≤ Check.maxElementDepth :=
    (Nat.succ_le_succ hc.height).trans (by decide)
  have htext : Text.unifyLineEnds (Text.withoutMark (String.ofList (element texts)).toList) =
      (around c).write := by
    have hmark : Text.withoutMark (element texts) = element texts := rfl
    rw [String.toList_ofList,hmark,unifyLineEnds_of_not_mem (return_not_mem_element texts),hwrite]
  refine ⟨(around c).node,?_,c.nodes [],?_,hc.lists⟩
  · rw [readDocument_write hproper htext,if_pos hshallow]
  · rw [Document.node_of_isPlain hplain,around,hplain.shown_eq]
    rfl

/-- The doc comment of an entry with a name is a summary of lines, all but the first behind the mark.
Without the marks it is read to one paragraph that tells the name, one that is the comment if that is
not blank, and one that tells the value unless that refers to a file. -/
theorem doc_comment_holds_texts {e : Entry} {name : String} (hname : e.name = some name)
    (h : e.Clean) : ∃ s first rest, render e = .ok s ∧
      s.toList.splitOn '\n' = first :: rest.map (mark ++ ·) ∧
      ∃ root, readDocument (String.ofList (['\n'].intercalate (first :: rest))) = some root ∧
        IsSummary root (("Looks up a localized string for \"" ++ name ++ "\".") ::
          ((e.comment.filter fun c => c.toList.any (!Unicode.isBlank ·)).toList ++
            if e.isFileRef then [] else ["Value: \"" ++ e.value.getD "" ++ "\"."])) := by
  obtain ⟨first,rest,hlines,hmarked⟩ := splitOn_markLines (element (paragraphs e))
  obtain ⟨root,hroot,hsummary⟩ := readDocument_element (clean_paragraphs h)
  refine ⟨_,first,rest,render_of_clean h,?_,root,?_,?_⟩
  · rw [String.toList_ofList,hmarked]
  · rw [← hlines,List.intercalate_splitOn,hroot]
  · have hblank : ∀ c : String,
        (!Unicode.isBlankText c) = c.toList.any (!Unicode.isBlank ·) := by
      intro c
      rw [Unicode.isBlankText,List.not_all_eq_any_not]
    unfold paragraphs at hsummary
    rw [hname] at hsummary
    simpa only [Option.getD_some,hblank,List.cons_append,List.nil_append] using hsummary

/-- An entry whose texts hold line feeds, a mark and markup. -/
def markedEntry : Entry :=
  ⟨some "a<b",some "</para>\n        /// &\r\n",some "first\n\nlast",none⟩

theorem markedEntry_holds_texts : markedEntry.name = some "a<b" ∧ markedEntry.Clean ∧
    ∃ s first rest, render markedEntry = .ok s ∧
      s.toList.splitOn '\n' = first :: rest.map (mark ++ ·) ∧
      ∃ root, readDocument (String.ofList (['\n'].intercalate (first :: rest))) = some root ∧
        IsSummary root ["Looks up a localized string for \"a<b\".","first\n\nlast",
          "Value: \"</para>\n        /// &\r\n\"."] := by
  have hclean : markedEntry.Clean := by
    constructor <;> simp [markedEntry,Clean,isChar]
  have htexts : ("Looks up a localized string for \"" ++ "a<b" ++ "\".") ::
      ((markedEntry.comment.filter fun c => c.toList.any (!Unicode.isBlank ·)).toList ++
        if markedEntry.isFileRef then [] else
          ["Value: \"" ++ markedEntry.value.getD "" ++ "\"."]) =
      ["Looks up a localized string for \"a<b\".","first\n\nlast",
        "Value: \"</para>\n        /// &\r\n\"."] := by decide
  have hmarked := doc_comment_holds_texts (e := markedEntry) rfl hclean
  rw [htexts] at hmarked
  exact ⟨rfl,hclean,hmarked⟩

end Summary
end TypedResources

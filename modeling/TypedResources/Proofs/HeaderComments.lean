import TypedResources.Proofs.DocComments
import TypedResources.Render.Header

/-! The header is a comment as far as its texts let it be. Every row begins as a comment, but a text
that goes on behind a line feed goes on without the mark: the header holds nothing but comments exactly
when all further lines of its texts are blank or comments by themselves. -/
namespace TypedResources

namespace Text

def linesOf (text : String) : List (List Char) := text.toList.splitOn '\n'

theorem linesOf_append_line (line rest : String) :
    linesOf (line ++ "\n" ++ rest) = linesOf line ++ linesOf rest := by
  have hchars : (line ++ "\n" ++ rest).toList = line.toList ++ '\n' :: rest.toList := by simp
  rw [linesOf,hchars,List.splitOn_append_cons_self]
  rfl

theorem linesOf_unlines (ls : List String) : linesOf (unlines ls) = ls.flatMap linesOf ++ [[]] := by
  induction ls with
  | nil => rfl
  | cons line rest ih =>
    rw [unlines,linesOf_append_line,ih,List.flatMap_cons,List.append_assoc]

/-- What stands before a text stands on its first line. -/
theorem linesOf_behind {before : String} (h : '\n' ∉ before.toList) (text : String) :
    linesOf (before ++ text) = (linesOf text).modifyHead (before.toList ++ ·) := by
  rw [linesOf,String.toList_append,List.splitOn_append_of_not_mem h]
  rfl

end Text

namespace Header

open Text

/-- A blank line, or a comment up to its end. -/
def IsComment (line : List Char) : Prop := line = [] ∨ ['/','/'] <+: line

def OnlyComments (text : String) : Prop := ∀ line ∈ linesOf text, IsComment line

instance (line : List Char) : Decidable (IsComment line) := inferInstanceAs (Decidable (_ ∨ _))

instance (text : String) : Decidable (OnlyComments text) :=
  inferInstanceAs (Decidable (∀ line ∈ linesOf text, IsComment line))

theorem onlyComments_unlines_iff (ls : List String) :
    OnlyComments (unlines ls) ↔ ∀ line ∈ ls, OnlyComments line := by
  unfold OnlyComments
  rw [linesOf_unlines]
  constructor
  · intro h line hline piece hpiece
    exact h piece (List.mem_append_left _ (List.mem_flatMap.mpr ⟨line,hline,hpiece⟩))
  · intro h piece hpiece
    rcases List.mem_append.mp hpiece with hpiece | hpiece
    · obtain ⟨line,hline,hpiece⟩ := List.mem_flatMap.mp hpiece
      exact h line hline piece hpiece
    · exact .inl (List.mem_singleton.mp hpiece)

/-- A row begins as a comment, and goes on as its text does. -/
theorem onlyComments_row_iff {label : String} (h : '\n' ∉ label.toList) (text : String) :
    OnlyComments ("// " ++ label ++ ": " ++ text) ↔ ∀ line ∈ (linesOf text).tail, IsComment line := by
  have hbefore : '\n' ∉ ("// " ++ label ++ ": ").toList := by simpa using h
  unfold OnlyComments
  rw [linesOf_behind hbefore]
  cases linesOf text with
  | nil => simp
  | cons first rest =>
    have hfirst : IsComment (("// " ++ label ++ ": ").toList ++ first) :=
      .inr ⟨' ' :: (label ++ ": ").toList ++ first,by simp⟩
    simp only [List.modifyHead_cons,List.tail_cons,List.forall_mem_cons,hfirst,true_and]

theorem not_mem_label {key : String} {paths : List String} {s : Settings} {row : String × String}
    (h : row ∈ rows key paths s) : '\n' ∉ row.1.toList := by
  have hlabels : ∀ label ∈ (rows key paths s).map (·.1), '\n' ∉ label.toList := by
    rw [rows]
    simp only [List.map_cons,List.map_nil]
    decide
  exact hlabels row.1 (List.mem_map_of_mem h)

/-- The header is a comment exactly when the further lines of all its texts are. -/
theorem onlyComments_render_iff (key : String) (paths : List String) (s : Settings) :
    OnlyComments (render key paths s) ↔
      ∀ row ∈ rows key paths s, ∀ line ∈ (linesOf row.2).tail, IsComment line := by
  rw [render,onlyComments_unlines_iff,lines,List.forall_mem_append,List.forall_mem_map]
  have htitle : ∀ line ∈ ["","// Debug info:"],OnlyComments line := by decide
  constructor
  · intro h row hrow
    exact (onlyComments_row_iff (not_mem_label hrow) row.2).mp (h.2 row hrow)
  · intro h
    exact ⟨htitle,fun row hrow => (onlyComments_row_iff (not_mem_label hrow) row.2).mpr (h row hrow)⟩

/-- Settings of which one, the configured name space, has two lines. -/
def twoLineSettings : Settings where
  rootNamespaceOption := none
  projectDirOption := some "/work/proj"
  namespaceOption := some "App\nclass Injected"
  resourceNameOption := none
  classNameOption := none
  useInstanceMembersOption := none
  assemblyName := none
  rootNamespace := .text ""
  projectDir := "/work/proj"
  defaultNamespace := some ""
  defaultResourceName := some ".Strings"
  targetNamespace := some "App\nclass Injected"
  resourceName := some ".Strings"
  className := "Strings"
  useInstanceMembers := false

theorem second_line_leaves_comment :
    ¬ OnlyComments (render "/work/proj/Strings" ["/work/proj/Strings.resx"] twoLineSettings) := by
  rw [onlyComments_render_iff]
  intro h
  have hline := h ("Namespace","App\nclass Injected") (by simp [rows,twoLineSettings,optionText])
    "class Injected".toList (by decide)
  revert hline
  decide

end Header
end TypedResources

import TypedResources.Failure
import TypedResources.Markup.Text
import TypedResources.Resource.Entry
import TypedResources.Unicode.Blank

/-!
The doc comment of a string accessor: a summary element with one paragraph per line, every line
after the first behind the comment mark.
-/

namespace TypedResources.Summary

def lineMark : List Char := "\n        /// ".toList

def markLines (cs : List Char) : List Char := cs.flatMap fun c => if c = '\n' then lineMark else [c]

def paragraphs (e : Entry) : List String :=
  ["Looks up a localized string for \"" ++ e.name.getD "None" ++ "\"."] ++
    (e.comment.filter fun c => !Unicode.isBlankText c).toList ++
    (if e.isFileRef then [] else ["Value: \"" ++ e.value.getD "" ++ "\"."])

def paragraph (text : String) : List Char :=
  "  <para>".toList ++ Markup.escapeText text.toList ++ "</para>\n".toList

def element (texts : List String) : List Char :=
  "<summary>\n".toList ++ texts.flatMap paragraph ++ "</summary>".toList

def render (e : Entry) : Except Failure String :=
  if (paragraphs e).all (fun text => text.toList.all Markup.isChar) then
    .ok (String.ofList (markLines (element (paragraphs e))))
  else .error .unwritableText

end TypedResources.Summary

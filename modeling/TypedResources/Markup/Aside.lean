import TypedResources.Markup.Name

/-!
Comments and processing instructions, of which only the form and the target matter.
-/

namespace TypedResources.Markup.Reader

/-- The rest of a comment after its opening. Two hyphens can only end it. -/
def comment : Reader Unit := do
  let _ ← upTo "--"
  word ">"

/-- The rest of a processing instruction after its opening: a target, and text after white space. -/
def instruction : Reader String := do
  let target ← name
  require (target.map Char.toLower ≠ "xml")
  if !(← optionalWord "?>") then
    someBlanks
    let _ ← upTo "?>"
  return target

end TypedResources.Markup.Reader

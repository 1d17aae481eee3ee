import TypedResources.Unicode.Letter

/-!
Identifiers made from arbitrary names. Characters that an identifier cannot hold become
underscores, and one more underscore goes in front of a character that cannot come first.
-/

namespace TypedResources.Identifier

open Unicode

/-- A character as it appears inside an identifier. -/
def keep (c : Char) : Char := if isLetter c || isPart c then c else '_'

def sanitizeChars : List Char → List Char
  | [] => []
  | c :: rest =>
    (if !isLetter c && isPart c then ['_', c] else [keep c]) ++ rest.map keep

/-- The identifier of a name. Distinct names may share one. -/
def sanitize (name : String) : String := String.ofList (sanitizeChars name.toList)

theorem sanitizeChars_eq_nil_iff (cs : List Char) : sanitizeChars cs = [] ↔ cs = [] := by
  cases cs with
  | nil => simp [sanitizeChars]
  | cons c rest => by_cases h : (!isLetter c && isPart c) = true <;> simp [sanitizeChars, h]

end TypedResources.Identifier

/-!
Texts as sequences of lines.
-/

namespace TypedResources.Text

def unlines : List String → String
  | [] => ""
  | line :: rest => line ++ "\n" ++ unlines rest

def commaSeparated : List String → String
  | [] => ""
  | [item] => item
  | item :: rest => item ++ ", " ++ commaSeparated rest

/-- Line ends of all kinds become line feeds. -/
def unifyLineEnds : List Char → List Char
  | [] => []
  | '\r' :: '\n' :: rest => '\n' :: unifyLineEnds rest
  | '\r' :: rest => '\n' :: unifyLineEnds rest
  | c :: rest => c :: unifyLineEnds rest

theorem unlines_append (xs ys : List String) : unlines (xs ++ ys) = unlines xs ++ unlines ys := by
  induction xs with
  | nil => simp [unlines]
  | cons x xs ih => simp [unlines, ih, String.append_assoc]

end TypedResources.Text

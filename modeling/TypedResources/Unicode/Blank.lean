import TypedResources.Unicode.Spans

/-!
White space: the separators of Unicode and the controls that act as such.
-/

namespace TypedResources.Unicode

/-- White space, the information separators U+001C to U+001F included. -/
def blankSpans : Spans :=
  [
    9, 14, 28, 33, 133, 134, 160, 161, 5760, 5761, 8192, 8203, 8232, 8234, 8239, 8240, 8287, 8288,
    12288, 12289
  ]

def isBlank (c : Char) : Bool := blankSpans.covers c.toNat

def trimChars (cs : List Char) : List Char :=
  (cs.dropWhile isBlank).reverse.dropWhile isBlank |>.reverse

def isBlankText (s : String) : Bool := s.toList.all isBlank

end TypedResources.Unicode

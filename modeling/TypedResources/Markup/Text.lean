/-!
Character data: which characters a document can hold, and how text is written.
-/

namespace TypedResources.Markup

def isChar (c : Char) : Bool :=
  let n := c.toNat
  n = 9 || n = 10 || n = 13 || (0x20 ≤ n && n ≤ 0xFFFD) || 0x10000 ≤ n

def escape (c : Char) : List Char :=
  match c with
  | '&' => "&amp;".toList
  | '<' => "&lt;".toList
  | '>' => "&gt;".toList
  | '\r' => "&#13;".toList
  | c => [c]

def escapeText (cs : List Char) : List Char := cs.flatMap escape

end TypedResources.Markup

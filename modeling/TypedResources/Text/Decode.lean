import TypedResources.Text.Lines

/-!
Bytes as text: UTF-8, with line ends of all kinds read as line feeds.
-/

namespace TypedResources.Text

def decode? (bytes : ByteArray) : Option String :=
  (String.fromUTF8? bytes).map fun s => String.ofList (unifyLineEnds s.toList)

/-- The text without one byte order mark at its start. -/
def withoutMark : List Char → List Char
  | '\ufeff' :: rest => rest
  | cs => cs

def decodeMarked? (bytes : ByteArray) : Option String :=
  (decode? bytes).map fun s => String.ofList (withoutMark s.toList)

end TypedResources.Text

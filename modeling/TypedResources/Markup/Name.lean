import TypedResources.Markup.Reader

/-!
Names of elements, attributes and entities. A colon may separate a qualifier from the local part.
-/

namespace TypedResources.Markup

def inSpan (low high : Nat) (c : Char) : Bool := low ≤ c.toNat && c.toNat ≤ high

def isNameStart (c : Char) : Bool :=
  c = ':' || c = '_' || inSpan 0x41 0x5A c || inSpan 0x61 0x7A c || inSpan 0xC0 0xD6 c ||
    inSpan 0xD8 0xF6 c || inSpan 0xF8 0x2FF c || inSpan 0x370 0x37D c || inSpan 0x37F 0x1FFF c ||
    inSpan 0x200C 0x200D c || inSpan 0x2070 0x218F c || inSpan 0x2C00 0x2FEF c ||
    inSpan 0x3001 0xD7FF c || inSpan 0xF900 0xFDCF c || inSpan 0xFDF0 0xFFFD c ||
    inSpan 0x10000 0xEFFFF c

def isNameChar (c : Char) : Bool :=
  isNameStart c || c = '-' || c = '.' || inSpan 0x30 0x39 c || c.toNat = 0xB7 ||
    inSpan 0x300 0x36F c || inSpan 0x203F 0x2040 c

def maxNameBytes : Nat := 50000

def byteLength (cs : List Char) : Nat := (String.ofList cs).utf8ByteSize

def Reader.boundedName (cs : List Char) : Reader String := do
  require (byteLength cs ≤ maxNameBytes)
  return String.ofList cs

def Reader.name : Reader String := do
  let cs ← takeWhile isNameChar
  require (cs.head?.any isNameStart)
  boundedName cs

/-- A token of name characters, of which any may come first. -/
def Reader.nameToken : Reader String := do
  let cs ← takeWhile isNameChar
  require !cs.isEmpty
  boundedName cs

def isPlainName (cs : List Char) : Bool :=
  let trimmed := (cs.dropWhile Reader.isBlank).reverse.dropWhile Reader.isBlank |>.reverse
  trimmed.head?.any isNameStart && trimmed.all isNameChar && !trimmed.contains ':'

end TypedResources.Markup

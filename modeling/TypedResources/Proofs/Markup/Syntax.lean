import Mathlib.Data.List.Infix
import TypedResources.Proofs.Markup.Evaluation

/-! Content as it is written: names, references, tags and what stands between them, with the text
and the tokens of each. What a piece of content has to satisfy on its own is part of it, so that a
piece that could not be read cannot be put together. -/
namespace TypedResources
namespace Markup
namespace Written

def IsBlanks (cs : List Char) : Prop := ∀ c ∈ cs, Reader.isBlank c = true

theorem isBlanks_nil : IsBlanks [] := fun c hc => by simp at hc

structure IsNamePart (cs : List Char) : Prop where
  starts : cs.head?.any isNameStart = true
  all : ∀ c ∈ cs, isNameChar c = true ∧ c ≠ ':'

theorem IsNamePart.of_all {cs : List Char} (hstart : cs.head?.any isNameStart = true)
    (h : cs.all (fun c => isNameChar c && c != ':') = true) : IsNamePart cs :=
  ⟨hstart,fun c hc => by simpa using List.all_eq_true.mp h c hc⟩

def joined (qualifier : Option (List Char)) (localName : List Char) : List Char :=
  match qualifier with
  | none => localName
  | some q => q ++ ':' :: localName

structure Name where
  qualifier : Option (List Char)
  localName : List Char
  qualifierPart : ∀ q ∈ qualifier, IsNamePart q
  localPart : IsNamePart localName
  short : byteLength (joined qualifier localName) ≤ maxNameBytes

def Name.write (n : Name) : List Char := joined n.qualifier n.localName

def Name.shown (n : Name) : String := String.ofList n.write

def Name.qualified (n : Name) : QualifiedName :=
  ⟨n.qualifier.map String.ofList,String.ofList n.localName,false⟩

/-- A reference to a character, by the name of a predefined entity or by its code. -/
inductive Reference
  | entity (name : String) (c : Char) (known : predefined? name = some c)
  | decimal (digits : List Char) (c : Char)
      (codes : (Number.ofDigits? 10 digits).bind charOfCode? = some c)
  | hexadecimal (digits : List Char) (c : Char)
      (codes : (Number.ofDigits? 16 digits).bind charOfCode? = some c)

namespace Reference

def inner : Reference → List Char
  | entity name _ _ => name.toList ++ [';']
  | decimal digits _ _ => '#' :: (digits ++ [';'])
  | hexadecimal digits _ _ => '#' :: 'x' :: (digits ++ [';'])

def write (r : Reference) : List Char := '&' :: r.inner

def char : Reference → Char
  | entity _ c _ => c
  | decimal _ c _ => c
  | hexadecimal _ c _ => c

def piece : Reference → Piece
  | entity name _ _ => .entity name
  | decimal _ c _ => .coded c
  | hexadecimal _ c _ => .coded c

end Reference

inductive Part (quote : Char)
  | plain (c : Char) (free : c ≠ quote ∧ c ≠ '<' ∧ c ≠ '&')
  | reference (r : Reference)

namespace Part

variable {quote : Char}

def write : Part quote → List Char
  | plain c _ => [c]
  | reference r => r.write

def piece : Part quote → Piece
  | plain c _ => .plain c
  | reference r => r.piece

/-- What the part stands for. White space that stands there itself becomes a space. -/
def char : Part quote → Char
  | plain c _ => if Reader.isBlank c then ' ' else c
  | reference r => r.char

end Part

/-- An attribute with the white space before it and around its equals sign. -/
structure Attribute where
  lead : List Char
  name : Name
  before : List Char
  after : List Char
  quote : Char
  parts : List (Part quote)
  leads : lead ≠ [] ∧ IsBlanks lead
  blank : IsBlanks before ∧ IsBlanks after
  quotes : quote = '"' ∨ quote = '\''

namespace Attribute

def write (a : Attribute) : List Char :=
  a.lead ++ (a.name.write ++ (a.before ++ ('=' :: (a.after ++
    (a.quote :: (a.parts.flatMap (·.write) ++ [a.quote]))))))

def raw (a : Attribute) : RawAttribute := ⟨a.name.shown,a.parts.map (·.piece)⟩

def value (a : Attribute) : String := String.ofList (a.parts.map (·.char))

end Attribute

/-- A start tag, or the tag of an empty element, between its first character and its end. -/
structure Tag where
  name : Name
  attributes : List Attribute
  tail : List Char
  blank : IsBlanks tail

def Tag.write (t : Tag) : List Char :=
  t.name.write ++ (t.attributes.flatMap (·.write) ++ t.tail)

def Tag.opening (t : Tag) (closed : Bool) : Token :=
  .opening t.name.shown (t.attributes.map (·.raw)) closed

/-- Character data as it stands between tags and references. -/
structure IsText (cs : List Char) : Prop where
  nonempty : cs ≠ []
  free : ∀ c ∈ cs, c ≠ '<' ∧ c ≠ '&'
  within : ¬ "]]>".toList <:+: cs

/-- The target of an instruction: a short name without a colon, other than that of a declaration. -/
structure IsTarget (cs : List Char) : Prop where
  part : IsNamePart cs
  short : byteLength cs ≤ maxNameBytes
  free : (String.ofList cs).map Char.toLower ≠ "xml"

inductive Atom
  | text (cs : List Char) (proper : IsText cs)
  | cdata (cs : List Char) (closes : ¬ "]]>".toList <:+: cs)
  | reference (r : Reference)
  | comment (cs : List Char) (closes : ¬ "--".toList <:+: cs ++ ['-'])
  | instruction (target body : List Char) (proper : IsTarget target)
      (apart : ∀ c ∈ body.head?, Reader.isBlank c = true) (closes : ¬ "?>".toList <:+: body)

namespace Atom

def write : Atom → List Char
  | text cs _ => cs
  | cdata cs _ => '<' :: ("![CDATA[".toList ++ (cs ++ "]]>".toList))
  | reference r => r.write
  | comment cs _ => '<' :: ("!--".toList ++ (cs ++ ("--".toList ++ ">".toList)))
  | instruction target body _ _ _ => '<' :: ("?".toList ++ (target ++ (body ++ "?>".toList)))

def token : Atom → Token
  | text cs _ => .text cs
  | cdata cs _ => .section cs
  | reference r => .reference r.piece
  | comment _ _ => .comment
  | instruction target _ _ _ _ => .instruction (String.ofList target)

def isText : Atom → Bool
  | text _ _ => true
  | _ => false

end Atom

/-- Content, item by item. An element has white space in its end tag and content after it. -/
inductive Content
  | done
  | atom (a : Atom) (rest : Content)
  | empty (t : Tag) (rest : Content)
  | element (t : Tag) (children : Content) (tail : List Char) (blank : IsBlanks tail)
      (rest : Content)

namespace Content

def write : Content → List Char
  | done => []
  | atom a rest => a.write ++ rest.write
  | empty t rest => '<' :: (t.write ++ ("/>".toList ++ rest.write))
  | element t children tail _ rest =>
    '<' :: (t.write ++ ('>' :: (children.write ++
      ('<' :: ('/' :: (t.name.write ++ (tail ++ ('>' :: rest.write))))))))

def tokens : Content → List Token
  | done => []
  | atom a rest => a.token :: rest.tokens
  | empty t rest => t.opening true :: rest.tokens
  | element t children _ _ rest =>
    t.opening false :: (children.tokens ++ (.closing t.name.shown :: rest.tokens))

def startsWithText : Content → Bool
  | atom a _ => a.isText
  | _ => false

/-- No two pieces of character data follow each other: they are one piece. -/
def Separate : Content → Prop
  | done => True
  | atom a rest => (a.isText = true → rest.startsWithText = false) ∧ rest.Separate
  | empty _ rest => rest.Separate
  | element _ children _ _ rest => children.Separate ∧ rest.Separate

def height : Content → Nat
  | done => 0
  | atom _ rest => rest.height
  | empty _ rest => max 1 rest.height
  | element _ children _ _ rest => max (children.height + 1) rest.height

def append : Content → Content → Content
  | done, more => more
  | atom a rest, more => .atom a (rest.append more)
  | empty t rest, more => .empty t (rest.append more)
  | element t children tail blank rest, more => .element t children tail blank (rest.append more)

theorem write_append (c more : Content) : (c.append more).write = c.write ++ more.write := by
  induction c with
  | done => rfl
  | atom a rest ih => rw [append,write,write,ih,List.append_assoc]
  | empty t rest ih => simp [append,write,ih]
  | element t children tail blank rest _ ih => simp [append,write,ih]

theorem height_append (c more : Content) : (c.append more).height = max c.height more.height := by
  induction c with
  | done => simp [append,height]
  | atom a rest ih => rw [append,height,height,ih]
  | empty t rest ih => rw [append,height,height,ih,Nat.max_assoc]
  | element t children tail blank rest _ ih => rw [append,height,height,ih,Nat.max_assoc]

theorem startsWithText_append {c more : Content} (h : more.startsWithText = false)
    (hc : c.startsWithText = false) : (c.append more).startsWithText = false := by
  cases c with
  | done => exact h
  | atom a rest => exact hc
  | empty t rest => rfl
  | element t children tail blank rest => rfl

theorem Separate.append {c more : Content} (hc : c.Separate) (hmore : more.Separate)
    (h : more.startsWithText = false) : (c.append more).Separate := by
  induction c with
  | done => exact hmore
  | atom a rest ih => exact ⟨fun ha => startsWithText_append h (hc.1 ha),ih hc.2⟩
  | empty t rest ih => exact ih hc
  | element t children tail blank rest _ ih => exact ⟨hc.1,ih hc.2⟩

end Content
end Written
end Markup
end TypedResources

/-!
The tokens of a document.
-/

namespace TypedResources.Yaml

inductive Directive
  | version (major : Nat)
  | handle (name lead : String)
  | other
  deriving DecidableEq, Repr

inductive Token
  | directive (d : Directive)
  | documentStart
  | documentEnd
  | blockSequence
  | blockMapping
  | blockEnd
  | openBracket
  | closeBracket
  | openBrace
  | closeBrace
  | dash
  | comma
  | key
  | value
  | alias (name : String)
  | anchor (name : String)
  /-- A tag in short form, or without a handle the whole tag. -/
  | tag (handle : Option String) (suffix : String)
  | scalar (text : String) (isPlain : Bool)
  deriving DecidableEq, Repr

end TypedResources.Yaml

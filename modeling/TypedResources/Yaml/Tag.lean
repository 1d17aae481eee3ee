import TypedResources.Yaml.Time

/-!
Tags say what kind of value a node stands for. A plain scalar without a tag gets one from its
spelling.
-/

namespace TypedResources.Yaml

inductive Tag
  | null
  | truth
  | integer
  | float
  | time
  | binary
  | text
  | sequence
  | mapping
  | orderedPairs
  | pairs
  | members
  /-- A key whose value is merged into the mapping. -/
  | merge
  /-- A key whose value stands for the whole mapping. -/
  | value
  | foreign
  deriving DecidableEq, Repr

namespace Tag

def ofName (name : String) : Tag :=
  let known : List (String × Tag) :=
    [("null", null), ("bool", truth), ("int", integer), ("float", float), ("timestamp", time),
      ("binary", binary), ("str", text), ("seq", sequence), ("map", mapping),
      ("omap", orderedPairs), ("pairs", pairs), ("set", members), ("merge", merge),
      ("value", value)]
  ((known.map fun (short, tag) => ("tag:yaml.org,2002:" ++ short, tag)).lookup name).getD foreign

/-- What is left after one or more characters of a class, if there are any. -/
def some? (p : Char → Bool) : List Char → Option (List Char)
  | c :: rest => if p c then some (rest.dropWhile p) else none
  | [] => none

def dropSign : List Char → List Char
  | c :: rest => if c = '-' ∨ c = '+' then rest else c :: rest
  | [] => []

open Number

def isDigitOrBar (c : Char) : Bool := isDecimalDigit c || c = '_'

/-- A text without a line feed at its end, which spellings tolerate. -/
def withoutEnd (cs : List Char) : List Char :=
  match cs.reverse with
  | '\n' :: rest => rest.reverse
  | _ => cs

def words (spellings : List String) (cs : List Char) : Bool := spellings.any (·.toList = cs)

def isTruth (cs : List Char) : Bool :=
  words ["yes", "Yes", "YES", "no", "No", "NO", "true", "True", "TRUE", "false", "False", "FALSE",
    "on", "On", "ON", "off", "Off", "OFF"] cs

def isNull (cs : List Char) : Bool := words ["", "~", "null", "Null", "NULL"] cs

/-- A group of a number in base sixty after its colon: one or two digits, below sixty. -/
def sixtieth? : List Char → Option (List Char)
  | ':' :: a :: b :: rest =>
    if '0' ≤ a && a ≤ '5' && isDecimalDigit b then some rest
    else if isDecimalDigit a then some (b :: rest)
    else none
  | [':', a] => if isDecimalDigit a then some [] else none
  | _ => none

def afterSixtieths : Nat → List Char → List Char
  | 0, cs => cs
  | bound + 1, cs =>
    match sixtieth? cs with
    | some rest => afterSixtieths bound rest
    | none => cs

def sixties? (cs : List Char) : Option (List Char) :=
  (sixtieth? cs).map fun rest => afterSixtieths rest.length rest

def isExponent : List Char → Bool
  | [] => true
  | e :: sign :: digits =>
    (e = 'e' || e = 'E') && (sign = '-' || sign = '+') && some? isDecimalDigit digits = some []
  | _ => false

def startsWithDigit (cs : List Char) : Bool := cs.head?.any isDecimalDigit

def isPointed (cs : List Char) : Bool :=
  startsWithDigit cs &&
    match cs.dropWhile isDigitOrBar with
    | '.' :: rest => isExponent (rest.dropWhile isDigitOrBar)
    | _ => false

def isFraction : List Char → Bool
  | '.' :: rest => startsWithDigit rest && isExponent (rest.dropWhile isDigitOrBar)
  | _ => false

def isPointedSixties (cs : List Char) : Bool :=
  startsWithDigit cs &&
    match sixties? (cs.dropWhile isDigitOrBar) with
    | some ('.' :: rest) => rest.all isDigitOrBar
    | _ => false

def isFloat (cs : List Char) : Bool :=
  let unsigned := dropSign cs
  isPointed unsigned || isFraction cs || isPointedSixties unsigned ||
    words [".inf", ".Inf", ".INF"] unsigned || words [".nan", ".NaN", ".NAN"] cs

def isHexDigit (c : Char) : Bool := (digitIn? 16 c).isSome

def isUnsignedInteger : List Char → Bool
  | ['0'] => true
  | '0' :: 'b' :: rest => some? (fun c => c = '0' || c = '1' || c = '_') rest = some []
  | '0' :: 'x' :: rest => some? (fun c => isHexDigit c || c = '_') rest = some []
  | '0' :: rest => some? (fun c => ('0' ≤ c && c ≤ '7') || c = '_') rest = some []
  | cs =>
    startsWithDigit cs &&
      let rest := cs.dropWhile isDigitOrBar
      rest.isEmpty || sixties? rest = some []

def isInteger (cs : List Char) : Bool := isUnsignedInteger (dropSign cs)

def isTime (cs : List Char) : Bool := (TimeText.of? cs).any (·.isImplicit)

def implied (cs : List Char) : Tag :=
  let body := withoutEnd cs
  if isTruth body then truth
  else if isFloat body then float
  else if isInteger body then integer
  else if body = "<<".toList then merge
  else if isNull body && cs ≠ ['\n'] then null
  else if isTime body then time
  else if body = ['='] then value
  else if body = ['!'] ∨ body = ['&'] ∨ body = ['*'] then foreign
  else text

end Tag

end TypedResources.Yaml

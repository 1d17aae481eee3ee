import TypedResources.Markup.Reader

/-!
References to resources: an absolute identifier with a scheme, or a relative one. Namespaces are
named by them.
-/

namespace TypedResources.Markup.Uri

def isAlpha (c : Char) : Bool := ('a' ≤ c && c ≤ 'z') || ('A' ≤ c && c ≤ 'Z')

def isDigit (c : Char) : Bool := '0' ≤ c && c ≤ '9'

def isHex (c : Char) : Bool := isDigit c || ('a' ≤ c && c ≤ 'f') || ('A' ≤ c && c ≤ 'F')

/-- Characters that need no escape, and those that separate the parts of a segment. -/
def isPlain (c : Char) : Bool := isAlpha c || isDigit c || "-._~!$&'()*+,;=".toList.contains c

/-- The text without its longest start of plain, extra and escaped characters. -/
def dropPlain (extra : Char → Bool) : List Char → List Char
  | '%' :: a :: b :: rest =>
    if isHex a && isHex b then dropPlain extra rest else '%' :: a :: b :: rest
  | c :: rest => if isPlain c || extra c then dropPlain extra rest else c :: rest
  | [] => []

def isSegmentExtra (c : Char) : Bool := c = ':' || c = '@'

def dropPath (cs : List Char) : List Char := dropPlain (fun c => isSegmentExtra c || c = '/') cs

/-- Nothing, or a query and a fragment, and then the end. -/
def isTail (cs : List Char) : Bool :=
  let extra c := isSegmentExtra c || c = '/' || c = '?'
  let afterQuery := match cs with
    | '?' :: rest => dropPlain extra rest
    | _ => cs
  match afterQuery with
  | [] => true
  | '#' :: rest => (dropPlain (fun c => extra c || c = '[' || c = ']') rest).isEmpty
  | _ => false

/-- The text after a port, which has to fit into 31 bits. -/
def afterPort? (cs : List Char) : Option (List Char) :=
  let digits := cs.takeWhile isDigit
  let port := digits.foldl (fun n c => 10 * n + (c.toNat - '0'.toNat)) 0
  if digits.isEmpty || 1 <<< 31 ≤ port then none else some (cs.dropWhile isDigit)

def afterHost? : List Char → Option (List Char)
  | '[' :: rest =>
    match rest.dropWhile (· != ']') with
    | _ :: after => some after
    | [] => none
  | cs => some (dropPlain (fun _ => false) cs)

def afterAuthority? (cs : List Char) : Option (List Char) :=
  let host := match dropPlain (· = ':') cs with
    | '@' :: rest => rest
    | _ => cs
  match afterHost? host with
  | some (':' :: rest) => afterPort? rest
  | other => other

/-- Whether a path that starts with a slash, or nothing, stands before the tail. -/
def isSlashPath (cs : List Char) : Bool :=
  match cs with
  | '/' :: rest => isTail (dropPath rest)
  | _ => isTail cs

def isHierarchy : List Char → Bool
  | '/' :: '/' :: rest => (afterAuthority? rest).any isSlashPath
  | '/' :: rest => isTail (dropPath rest)
  | cs => isTail (dropPath cs)

def afterScheme? : List Char → Option (List Char)
  | c :: rest =>
    let isPart d := isAlpha d || isDigit d || d = '+' || d = '-' || d = '.'
    match isAlpha c, rest.dropWhile isPart with
    | true, ':' :: after => some after
    | _, _ => none
  | [] => none

def isAbsolute (cs : List Char) : Bool := (afterScheme? cs).any isHierarchy

/-- An identifier without a scheme: its first segment holds no colon. -/
def isRelative : List Char → Bool
  | '/' :: '/' :: rest => (afterAuthority? rest).any isSlashPath
  | '/' :: rest => isTail (dropPath rest)
  | cs => isSlashPath (dropPlain (· = '@') cs)

def isReference (cs : List Char) : Bool := isAbsolute cs || isRelative cs

end TypedResources.Markup.Uri

import TypedResources.Config.Value
import TypedResources.Number.Reading
import TypedResources.Text.Base64
import TypedResources.Yaml.Fault
import TypedResources.Yaml.Node

/-!
The values that nodes mean. Of several faults the one nearest to the root counts, and of equally
near ones the first.
-/

namespace TypedResources.Yaml

open Config

/-- The whole number of a scalar: bases are marked in front, and colons separate digits of base
sixty. -/
def integerOf (cs : List Char) : Except Fault Int :=
  let digits := cs.filter (· ≠ '_')
  let (negative, body) := Number.signed digits
  let read := fun base cs => match Number.integer? base cs with
    | some n => Except.ok n
    | none => .error .noNumber
  let magnitude : Except Fault Int :=
    match body with
    | [] => .error .emptyNumber
    | ['0'] => .ok 0
    | '0' :: 'b' :: rest => read 2 rest
    | '0' :: 'x' :: rest => read 16 rest
    | '0' :: _ => read 8 body
    | _ =>
      if body.contains ':' then
        ((body.splitOn ':').mapM (read 10)).map fun parts => parts.foldl (fun n d => 60 * n + d) 0
      else read 10 body
  magnitude.map fun n => if negative then -n else n

def atPlace (digit : Double) : Double → Except Fault Double
  | .infinite _ => .error .hugeNumber
  | factor => .ok (digit.mul factor)

/-- The number of digits of base sixty, the last one first. -/
def sixties (place : Nat) (total : Double) : List Double → Except Fault Double
  | [] => .ok total
  | digit :: rest =>
    (atPlace digit (Double.ofNat place)).bind fun part =>
      sixties (60 * place) (total.add part) rest

def floatOf (cs : List Char) : Except Fault Double :=
  let digits := (cs.filter (· ≠ '_')).map Char.toLower
  let (negative, body) := Number.signed digits
  let read := fun cs => match Double.ofText? cs with
    | some x => Except.ok x
    | none => .error .noNumber
  let magnitude : Except Fault Double :=
    if digits.isEmpty then .error .emptyNumber
    else if body = ".inf".toList then .ok (.infinite false)
    else if body = ".nan".toList then .ok .nan
    else if body.contains ':' then do
      sixties 1 Double.zero (← (body.splitOn ':').mapM read).reverse
    else read body
  magnitude.map fun x => if negative then x.negate else x

def truthOf (cs : List Char) : Except Fault Bool :=
  let lower := cs.map Char.toLower
  if Tag.words ["yes", "true", "on"] lower then .ok true
  else if Tag.words ["no", "false", "off"] lower then .ok false
  else .error .noTruth

def timeOf (cs : List Char) : Except Fault Scalar :=
  match TimeText.of? (Tag.withoutEnd cs) with
  | none => .error .noTime
  | some t =>
    match Calendar.Date.of? t.year t.month t.day, t.clock with
    | some date, none => .ok (.date date)
    | some date, some clock =>
      match TimeText.moment? date clock with
      | some m => .ok (.moment m)
      | none => .error .impossibleTime
    | none, _ => .error .impossibleTime

def binaryOf (cs : List Char) : Except Fault Scalar :=
  match (if cs.all (·.toNat < 128) then Base64.bytes? cs else none) with
  | some bytes => .ok (.bytes bytes)
  | none => .error .malformed

def scalarOf (tag : Tag) (text : String) : Except Fault Scalar :=
  match tag with
  | .null => .ok .null
  | .truth => (truthOf text.toList).map .bool
  | .integer => (integerOf text.toList).map .int
  | .float => (floatOf text.toList).map .float
  | .time => timeOf text.toList
  | .binary => binaryOf text.toList
  | .text => .ok (.text text)
  | _ => .error .malformed

namespace Node

mutual

/-- The text of a node where a scalar is wanted. A mapping stands for the value of its value key. -/
def scalarText? : Node → Option String
  | scalar _ text => some text
  | sequence _ _ => none
  | mapping _ entries => valueText? entries

def valueText? : List (Node × Node) → Option String
  | [] => none
  | (key, value) :: rest => if key.tag = .value then value.scalarText? else valueText? rest

end

def ownEntries (entries : List (Node × Node)) : List (Node × Node) :=
  (entries.filter (·.1.tag ≠ .merge)).map fun (key, value) =>
    (if key.tag = .value then key.withTag .text else key, value)

mutual

/-- The entries that a mapping's merge keys bring in; only mappings and lists of them can be
merged. -/
def broughtIn : List (Node × Node) → Option (List (Node × Node))
  | [] => some []
  | (key, value) :: rest => do
    let here ← if key.tag = .merge then value.sources else some []
    return here ++ (← broughtIn rest)

/-- The entries to be merged from a node; of several mappings the last comes first. -/
def sources : Node → Option (List (Node × Node))
  | scalar _ _ => none
  | mapping _ entries => (broughtIn entries).map (· ++ ownEntries entries)
  | sequence _ items => sourcesOfAll items

def sourcesOfAll : List Node → Option (List (Node × Node))
  | [] => some []
  | mapping _ entries :: rest => do
    let here ← broughtIn entries
    return (← sourcesOfAll rest) ++ here ++ ownEntries entries
  | _ :: _ => none

end

/-- The entry of a node that is one pair. Merging would change which entries there are, and it may have
happened elsewhere if the node has another place, too. -/
def onlyEntry : Node → Except Fault (Node × Node)
  | mapping _ entries =>
    if entries.any (·.1.tag = .merge) then .error .identity
    else
      match entries with
      | [entry] => .ok entry
      | _ => .error .malformed
  | _ => .error .malformed

end Node

/-- Faults by the depth at which they are found. -/
abbrev Faults := List (List Fault)

namespace Faults

/-- The faults of two neighbours, depth by depth. -/
def beside : Faults → Faults → Faults
  | [], ys => ys
  | xs, [] => xs
  | x :: xs, y :: ys => (x ++ y) :: beside xs ys

def ofAll (all : List Faults) : Faults := all.foldr beside []

def here (fault : Fault) : Faults := [[fault]]

def first? (faults : Faults) : Option Fault := faults.flatten.head?

end Faults

structure Reading where
  value : Value
  faults : Faults

namespace Reading

def fault (f : Fault) : Reading := ⟨.null, Faults.here f⟩

def ofScalar : Except Fault Scalar → Reading
  | .ok s => ⟨.scalar s, []⟩
  | .error f => fault f

/-- A collection. Its content is read one step after itself. -/
def collection (value : Value) (content : List Faults) : Reading :=
  ⟨value, [] :: Faults.ofAll content⟩

def unreadable (value : Value) : Reading := collection value [Faults.here .malformed]

/-- The faults of an entry: only scalars can be keys, and a key has to equal itself. -/
def entryFaults (key value : Reading) : Faults :=
  match key.value with
  | .scalar (.float .nan) => Faults.ofAll [key.faults, Faults.here .identity, value.faults]
  | .scalar _ => Faults.beside key.faults value.faults
  | _ => Faults.ofAll [key.faults, Faults.here .malformed, value.faults]

def entry? (key value : Reading) : Option (Scalar × Value) :=
  match key.value with
  | .scalar s => some (s, value.value)
  | _ => none

def ofEntries (entries : List (Reading × Reading)) : Reading :=
  collection (.map (Entries.ofPairs (entries.filterMap fun (k, v) => entry? k v)))
    (entries.map fun (k, v) => entryFaults k v)

def members (r : Reading) : Reading :=
  match r.value with
  | .map entries => ⟨.members (entries.map (·.1)), r.faults⟩
  | _ => ⟨.members [], r.faults⟩

/-- The pairs of a sequence of mappings with one entry each; others are faults. -/
def ofPairs (pairs : List (Except Fault (Reading × Reading))) : Reading :=
  collection
    (.list (pairs.filterMap fun pair => pair.toOption.map fun (k, v) => .pair k.value v.value))
    (pairs.map fun pair =>
      match pair with
      | .ok (k, v) => Faults.beside k.faults v.faults
      | .error fault => Faults.here fault)

/-- The reading of a node whose nodes are nested no deeper than the bound. -/
def within : Nat → Node → Reading
  | 0, _ => fault .malformed
  | bound + 1, node =>
    let both := fun ((k, v) : Node × Node) => (within bound k, within bound v)
    let mapped := match node with
      | .mapping _ entries =>
        match Node.broughtIn entries with
        | some more => ofEntries ((more ++ Node.ownEntries entries).map both)
        | none => unreadable (.map [])
      | _ => unreadable (.map [])
    match node.tag, node with
    | .sequence, .sequence _ items =>
      let read := items.map (within bound)
      collection (.list (read.map (·.value))) (read.map (·.faults))
    | .orderedPairs, .sequence _ items | .pairs, .sequence _ items =>
      ofPairs (items.map fun item => item.onlyEntry.map both)
    | .sequence, _ | .orderedPairs, _ | .pairs, _ => unreadable (.list [])
    | .mapping, _ => mapped
    | .members, _ => mapped.members
    | .time, .mapping _ entries =>
      fault (if (Node.valueText? entries).isSome then .mappedTime else .malformed)
    | tag, _ =>
      match node.scalarText? with
      | some text => ofScalar (scalarOf tag text)
      | none => fault .malformed

end Reading

def Node.value (node : Node) : Except Fault Value :=
  let reading := Reading.within (node.depth + 1) node
  match reading.faults.first? with
  | some f => .error f
  | none => .ok reading.value

/-- The value of the document that a text holds; null if it holds none. -/
def valueOf (root : Option Node) : Except Fault Value :=
  match root with
  | some node => node.value
  | none => .ok .null

end TypedResources.Yaml

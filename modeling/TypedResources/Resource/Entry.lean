/-!
One named record of a resource file, and what its declared type and value say about its kind.
-/

namespace TypedResources

/-- A record of a resource file; absent fields are `none`. -/
structure Entry where
  name : Option String
  value : Option String
  comment : Option String
  type : Option String
  deriving DecidableEq, Repr

namespace Entry

/-- The second of the segments that semicolons separate. A file reference keeps its type there. -/
def secondSegment (value : String) : Option String :=
  ((value.toList.splitOn ';')[1]?).map String.ofList

def embeddedType (e : Entry) : Option String := e.value.bind secondSegment

def startsWith (lead text : String) : Bool := lead.toList.isPrefixOf text.toList

/-- A string resource: untyped, or a reference to a file that holds a string. -/
def isText (e : Entry) : Bool :=
  e.type.isNone || e.embeddedType.any (startsWith "System.String,")

def isFileRef (e : Entry) : Bool := e.type.any (startsWith "System.Resources.ResXFileRef,")

def fullTypeName (e : Entry) : Option String :=
  if e.isText then some "string"
  else e.embeddedType.map fun t => String.ofList (t.toList.takeWhile (· != ','))

def withComment (e : Entry) (comment : Option String) : Entry := { e with comment := comment }

/-- Entries with no name or an empty one get no accessor. -/
def accessorName? (e : Entry) : Option String := e.name.filter (· ≠ "")

end Entry

end TypedResources

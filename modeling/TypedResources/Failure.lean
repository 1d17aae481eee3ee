/-!
What can go wrong: faults of one file, which a run survives when they are contained, and failures,
which end the run.
-/

namespace TypedResources

/-- Why a host gave no text for a file. -/
inductive ReadFault
  | unavailable
  | notFound
  | denied
  | isDirectory
  | malformed
  /-- The host reads markup itself, and what it read is not well-formed. -/
  | illFormed
  | undecodable
  | cancelled
  | crashed
  | unknownKey
  | wrongKind
  deriving DecidableEq, Repr

/-- Contained faults make one file unusable and leave the run alone. -/
def ReadFault.isContained : ReadFault → Bool
  | .crashed | .unknownKey | .wrongKind => false
  | _ => true

/-- Why a run ends without output. -/
inductive Failure
  /-- A file could not be read, and the fault is not contained. -/
  | unreadable (fault : ReadFault)
  /-- A placeholder index has too many digits. -/
  | longIndex
  /-- A doc comment holds a character that markup cannot hold. -/
  | unwritableText
  /-- A configured name that is not a text was needed as one. -/
  | foreignName
  /-- A group without files has no path to report at. -/
  | emptyGroup
  deriving DecidableEq, Repr

end TypedResources

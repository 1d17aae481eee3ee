/-!
What can be wrong with a document, and what keeps a document from having a value here.
-/

namespace TypedResources.Yaml

inductive Fault
  /-- The text is not a document, or the document says what no value can be made of. -/
  | malformed
  /-- An escape in quotes names no character. -/
  | noCharacter
  /-- An escape in quotes is beyond all numbers of characters. -/
  | hugeCharacter
  /-- A scalar tagged as a number is none. -/
  | noNumber
  /-- A scalar tagged as a number is empty. -/
  | emptyNumber
  /-- A part of a number in base sixty is too large. -/
  | hugeNumber
  /-- A scalar tagged as a truth value is none. -/
  | noTruth
  /-- A scalar tagged as a time is none. -/
  | noTime
  /-- A mapping is tagged as a time. -/
  | mappedTime
  /-- A day or a time of day that the calendar does not have. -/
  | impossibleTime
  /-- An escape in quotes names half of a surrogate pair. -/
  | surrogate
  /-- The meaning depends on which nodes, or which numbers, are one and the same object. -/
  | identity
  deriving DecidableEq, Repr

/-- Documents with these faults may well mean something, but no value here stands for it. -/
def Fault.isLeftOut : Fault → Bool
  | .surrogate | .identity => true
  | _ => false

end TypedResources.Yaml

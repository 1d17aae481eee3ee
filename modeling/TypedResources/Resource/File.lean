import TypedResources.Failure

/-!
A file supplied by the host. Its text is produced on demand; what the host does when asked is part
of the file.
-/

namespace TypedResources

/-- A file and what happens when its text is asked for: the host may first cancel the run, and then
gives a text, or has none, or fails. -/
structure ResourceFile where
  path : String
  cancels : Bool
  content : Except ReadFault (Option String)

namespace ResourceFile

def ofText (path : String) (text : Option String) : ResourceFile := ⟨path, false, .ok text⟩

/-- The state of the cancellation token after the host was asked. -/
def cancelledAfter (f : ResourceFile) (cancelled : Bool) : Bool := cancelled || f.cancels

/-- What asking gives under a token: nothing is asked once the run is cancelled. -/
def read (f : ResourceFile) (cancelled : Bool) : Except ReadFault (Option String) :=
  if cancelled then .error .cancelled else f.content

end ResourceFile

end TypedResources

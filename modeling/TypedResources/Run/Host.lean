import TypedResources.Run.Generate

/-!
A host that changes its inputs between runs.
-/

namespace TypedResources

structure Host where
  files : List ResourceFile
  options : OptionTable
  assemblyName : Option Label
  supportsNullableAttributes : Bool
  cancelled : Bool

namespace Host

def initial : Host := ⟨[], OptionTable.empty, none, true, false⟩

inductive Change
  | putFile (file : ResourceFile)
  | setGlobal (key value : String)
  | setOption (path key value : String)
  | clearOptions
  | setArguments (assemblyName : Option (Option Label)) (supportsNullableAttributes : Option Bool)
  | cancel
  | renewToken

def withoutFile (h : Host) (path : String) : Host := { h with
  files := h.files.filter (·.path ≠ path) }

/-- Files are kept by path; a file that is put again comes last. -/
def withFile (h : Host) (file : ResourceFile) : Host := { h with
  files := (h.withoutFile file.path).files ++ [file] }

def hasFile (h : Host) (path : String) : Bool := h.files.any (·.path = path)

def apply (h : Host) : Change → Host
  | .putFile file => h.withFile file
  | .setGlobal key value => { h with options := h.options.setGlobal key value }
  | .setOption path key value => { h with options := h.options.setFile path key value }
  | .clearOptions => { h with options := OptionTable.empty }
  | .setArguments assemblyName nullable => { h with
      assemblyName := assemblyName.getD h.assemblyName
      supportsNullableAttributes := nullable.getD h.supportsNullableAttributes }
  | .cancel => { h with cancelled := true }
  | .renewToken => { h with cancelled := false }

def job (h : Host) (current : String) : Job :=
  ⟨current, h.options.options, h.assemblyName, h.supportsNullableAttributes⟩

/-- Run over the present state; a file that cancels leaves the token cancelled. -/
def run (h : Host) (current : String) : Trace Output × Host :=
  let t := Generate.run (h.job current) h.files h.cancelled
  (t, { h with cancelled := t.cancelled })

end Host

end TypedResources

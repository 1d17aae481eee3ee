/-!
Options: texts that the host sets for single files or for the whole run.
-/

namespace TypedResources

structure Options where
  file : String → String → Option String
  global : String → Option String

/-- Options kept as tables; a table's keys are distinct. -/
structure OptionTable where
  global : List (String × String)
  files : List (String × List (String × String))
  deriving DecidableEq, Repr

namespace OptionTable

def empty : OptionTable := ⟨[], []⟩

/-- The options of a file; none are set for an unknown one. -/
def fileTable (t : OptionTable) (path : String) : List (String × String) :=
  (t.files.lookup path).getD []

def options (t : OptionTable) : Options where
  file path key := (t.fileTable path).lookup key
  global key := t.global.lookup key

/-- Set the value of a key in place, or at the end if the key is new. -/
def assign {α : Type} (key : String) (value : α) : List (String × α) → List (String × α)
  | [] => [(key, value)]
  | (k, v) :: rest => if k = key then (k, value) :: rest else (k, v) :: assign key value rest

theorem lookup_assign {α : Type} (key : String) (value : α) (table : List (String × α)) :
    (assign key value table).lookup key = some value := by
  induction table with
  | nil => simp [assign]
  | cons entry rest ih =>
    obtain ⟨k, v⟩ := entry
    by_cases h : k = key
    · simp [assign, h]
    · have : (key == k) = false := by simpa using fun e => h e.symm
      simp [assign, h, List.lookup_cons, this, ih]

def setGlobal (t : OptionTable) (key value : String) : OptionTable := { t with
  global := assign key value t.global }

def setFile (t : OptionTable) (path key value : String) : OptionTable := { t with
  files := assign path (assign key value (t.fileTable path)) t.files }

end OptionTable

end TypedResources

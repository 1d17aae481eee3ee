import TypedResources.Report.Log

/-!
A reporter collects diagnostics in the order in which they come, and writes the log. Diagnostics that
it is told of are logged; those taken over from another reporter are not.
-/

namespace TypedResources

structure Reporter where
  diagnostics : List Diagnostic
  log : List LogRecord
  deriving DecidableEq, Repr

namespace Reporter

def empty : Reporter := ⟨[], []⟩

/-- Record and log a diagnostic. -/
def report (r : Reporter) (d : Diagnostic) : Reporter :=
  ⟨r.diagnostics ++ [d], r.log ++ [d.logRecord]⟩

/-- Log what is no diagnostic. -/
def note (r : Reporter) (record : LogRecord) : Reporter := { r with log := r.log ++ [record] }

/-- Take over diagnostics that were logged elsewhere. -/
def extend (r : Reporter) (ds : List Diagnostic) : Reporter := { r with
  diagnostics := r.diagnostics ++ ds }

def reportAll (r : Reporter) (ds : List Diagnostic) : Reporter := ds.foldl report r

/-- Count one more occurrence of an id, which comes last if it is new. -/
def tally (table : List (String × Nat)) (id : String) : List (String × Nat) :=
  match table with
  | [] => [(id, 1)]
  | (known, n) :: rest => if known = id then (known, n + 1) :: rest else (known, n) :: tally rest id

def counts (r : Reporter) : List (String × Nat) := (r.diagnostics.map (·.id)).foldl tally []

@[simp] theorem extend_diagnostics (r : Reporter) (ds : List Diagnostic) :
    (r.extend ds).diagnostics = r.diagnostics ++ ds := rfl

@[simp] theorem extend_log (r : Reporter) (ds : List Diagnostic) : (r.extend ds).log = r.log := rfl

@[simp] theorem note_diagnostics (r : Reporter) (record : LogRecord) :
    (r.note record).diagnostics = r.diagnostics := rfl

theorem reportAll_eq (r : Reporter) (ds : List Diagnostic) :
    r.reportAll ds = ⟨r.diagnostics ++ ds, r.log ++ ds.map (·.logRecord)⟩ := by
  induction ds generalizing r with
  | nil => simp [reportAll]
  | cons d ds ih =>
    rw [show r.reportAll (d :: ds) = (r.report d).reportAll ds from rfl, ih (r.report d)]
    simp [report]

@[simp] theorem reportAll_diagnostics (r : Reporter) (ds : List Diagnostic) :
    (r.reportAll ds).diagnostics = r.diagnostics ++ ds := by rw [reportAll_eq]

theorem reportAll_append (r : Reporter) (ds es : List Diagnostic) :
    r.reportAll (ds ++ es) = (r.reportAll ds).reportAll es := List.foldl_append

end Reporter

end TypedResources

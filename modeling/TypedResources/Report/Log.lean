import TypedResources.Report.Diagnostic

/-!
Log records of a run.
-/

namespace TypedResources

inductive LogLevel
  | debug
  | info
  | warning
  deriving DecidableEq, Repr

inductive LogSource
  | configuring
  | generating
  | loading
  | reporting
  deriving DecidableEq, Repr

structure LogRecord where
  level : LogLevel
  source : LogSource
  text : String
  deriving DecidableEq, Repr

def Diagnostic.logRecord (d : Diagnostic) : LogRecord :=
  ⟨.warning, .reporting, d.id ++ ": " ++ d.message⟩

end TypedResources

import TypedResources.Config.Options
import TypedResources.Number.Integer
import TypedResources.Run.Generate

/-!
Runs whose settings come from a configuration.
-/

namespace TypedResources.Config

/-- A configured name; null configures none. -/
def label : Option Value → Option Label
  | none | some (.scalar .null) => none
  | some (.scalar (.text s)) => some (.text s)
  | some value => some (.other value.optionText value.isSet)

def wholeNumber (cs : List Char) : Except SettingFault Int :=
  match Number.integer? 10 cs with
  | some n => .ok n
  | none => .error .notWhole

def scalarWorkers : Scalar → Except SettingFault Int
  | .bool b => .ok (if b then 1 else 0)
  | .int n => .ok n
  | .float (.infinite _) => .error .unbounded
  | .float x => match x.truncate? with
    | some n => .ok n
    | none => .error .notWhole
  | .text s => wholeNumber s.toList
  | .bytes b =>
    if b.all (· < 128) then wholeNumber (b.map fun x => Char.ofNat x.toNat) else .error .notWhole
  | _ => .error .notNumeric

/-- The number of workers; one if none is set. -/
def workers : Option Value → Except SettingFault Int
  | some value =>
    if value.isSet then
      match value with
      | .scalar s => scalarWorkers s
      | _ => .error .notNumeric
    else .ok 1
  | none => .ok 1

/-- The job that a configuration describes. How many workers share it does not change its output. -/
def job (current : String) (config : Entries) (base : Option String) : Except SettingFault Job := do
  let table ← options config base
  let _ ← workers (config.get? "max_workers")
  return {
    current
    options := table.options
    assemblyName := label (config.get? "assembly_name")
    supportsNullableAttributes :=
      ((config.get? "supports_nullable_attributes").map (·.isSet)).getD true }

def run (current : String) (config : Entries) (base : Option String) (files : List ResourceFile)
    (cancelled : Bool) : Except SettingFault (Trace Output) :=
  (job current config base).map fun j => Generate.run j files cancelled

end TypedResources.Config

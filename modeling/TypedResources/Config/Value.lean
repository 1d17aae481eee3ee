import TypedResources.Calendar.Moment
import TypedResources.Number.Double

/-!
The data of a configuration: scalars, lists, and mappings whose keys are scalars. A mapping keeps
its entries in the order in which their keys came.
-/

namespace TypedResources.Config

inductive Scalar
  | null
  | bool (b : Bool)
  | int (n : Int)
  | float (x : Double)
  | text (s : String)
  | bytes (b : List UInt8)
  | date (d : Calendar.Date)
  | moment (m : Calendar.Moment)
  deriving DecidableEq, Repr

namespace Scalar

/-- Numbers in the units of floating-point magnitudes; true and false count as one and zero. -/
def units? : Scalar → Option Int
  | bool b => some (if b then Double.one else 0)
  | int n => some (n * Double.one)
  | float (.finite negative m) => some (if negative then -m else m)
  | _ => none

/-- Whether two scalars are the same key: numbers of equal value are, whatever their kind. -/
def same (a b : Scalar) : Bool :=
  match a, b with
  | text s, text t => s = t
  | moment m, moment n => m.same n
  | a, b => if a.units?.isSome then a.units? = b.units? else a = b

theorem same_self (a : Scalar) : a.same a = true := by
  cases a <;> simp [same, Calendar.Moment.same_self]

/-- Whether a scalar counts as set: nothing, zero, false and empty texts do not. -/
def isSet : Scalar → Bool
  | null => false
  | bool b => b
  | int n => n ≠ 0
  | float x => !x.isZero
  | text s => s ≠ ""
  | bytes b => b ≠ []
  | date _ | moment _ => true

end Scalar

inductive Value
  | scalar (s : Scalar)
  | list (items : List Value)
  | pair (first second : Value)
  /-- A set of scalars. -/
  | members (items : List Scalar)
  | map (entries : List (Scalar × Value))
  deriving Repr

/-- The entries of a mapping; no two keys are the same. -/
abbrev Entries := List (Scalar × Value)

namespace Value

def null : Value := scalar .null

instance : Inhabited Value := ⟨null⟩

def bool (b : Bool) : Value := scalar (.bool b)

def int (n : Int) : Value := scalar (.int n)

def text (s : String) : Value := scalar (.text s)

/-- Whether a value counts as set: empty collections do not. -/
def isSet : Value → Bool
  | scalar s => s.isSet
  | list items => !items.isEmpty
  | pair _ _ => true
  | members items => !items.isEmpty
  | map entries => !entries.isEmpty

def isNull : Value → Bool
  | scalar .null => true
  | _ => false

end Value

namespace Entries

def find? (key : Scalar) : Entries → Option Value
  | [] => none
  | (k, v) :: rest => if k.same key then some v else find? key rest

/-- Set the value of a key: in its place, which keeps its spelling, or at the end if the key is
new. -/
def assign (key : Scalar) (value : Value) : Entries → Entries
  | [] => [(key, value)]
  | (k, v) :: rest => if k.same key then (k, value) :: rest else (k, v) :: assign key value rest

def ofPairs (pairs : List (Scalar × Value)) : Entries :=
  pairs.foldl (fun entries (key, value) => entries.assign key value) []

def get? (entries : Entries) (key : String) : Option Value := entries.find? (.text key)

end Entries

end TypedResources.Config

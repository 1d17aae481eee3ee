import TypedResources.Config.Value

/-!
Laying one mapping over another. Where both hold a mapping under one key these are merged in turn;
otherwise the upper value replaces the lower one.
-/

namespace TypedResources.Config

mutual

def merge (base : Entries) : Entries → Entries
  | [] => base
  | (key, value) :: rest =>
    merge (base.assign key (mergeValue (base.find? key) value)) rest

/-- A value laid over what its key held before. -/
def mergeValue (old : Option Value) : Value → Value
  | .map upper =>
    match old with
    | some (.map lower) => .map (merge lower upper)
    | _ => .map upper
  | value => value

end

theorem merge_nil (base : Entries) : merge base [] = base := by rw [merge]

end TypedResources.Config

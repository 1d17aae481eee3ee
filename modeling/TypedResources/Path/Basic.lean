/-!
Slash-separated paths as character lists. The last component is the base name; its extension starts
at its last dot, unless only dots precede it.
-/

namespace TypedResources.Path

def baseName (path : List Char) : List Char := (path.reverse.takeWhile (· != '/')).reverse

def lead (path : List Char) : List Char := (path.reverse.dropWhile (· != '/')).reverse

theorem lead_append_baseName (path : List Char) : lead path ++ baseName path = path := by
  rw [lead, baseName, ← List.reverse_append, List.takeWhile_append_dropWhile, List.reverse_reverse]

/-- The directory of a path: no trailing slash, except when there are only slashes. -/
def dirName (path : List Char) : List Char :=
  if (lead path).all (· == '/') then lead path
  else ((lead path).reverse.dropWhile (· == '/')).reverse

/-- A path below another one; an absolute second path stands alone. -/
def join (dir path : List Char) : List Char :=
  if path.head? = some '/' then path
  else if dir = [] ∨ dir.getLast? = some '/' then dir ++ path
  else dir ++ '/' :: path

def splitLastDot (cs : List Char) : Option (List Char × List Char) :=
  match cs.reverse.dropWhile (· != '.') with
  | [] => none
  | _ :: before => some (before.reverse, (cs.reverse.takeWhile (· != '.')).reverse)

theorem eq_of_splitLastDot {cs before after : List Char}
    (h : splitLastDot cs = some (before, after)) : cs = before ++ '.' :: after := by
  unfold splitLastDot at h
  have hsplit := List.takeWhile_append_dropWhile (p := (· != '.')) (l := cs.reverse)
  split at h
  · simp at h
  · rename_i d tail heq
    have hd : d = '.' := by
      have := List.head?_dropWhile_not (· != '.') cs.reverse
      simpa [heq] using this
    obtain ⟨rfl, rfl⟩ := Prod.mk.inj (Option.some.inj h)
    rw [heq, hd] at hsplit
    have := congrArg List.reverse hsplit
    simpa using this.symm

def stem (base : List Char) : List Char :=
  match splitLastDot base with
  | some (before, _) => if before.all (· == '.') then base else before
  | none => base

def withoutExtension (path : List Char) : List Char := lead path ++ stem (baseName path)

def withEndSlash (path : List Char) : List Char :=
  if path.getLast? = some '/' then path else path ++ ['/']

end TypedResources.Path

import TypedResources.Failure
import TypedResources.Number.Digits

/-!
Numbered placeholders of a format text: `{n}` or `{n:format}`. Placeholders are taken from left to
right and do not overlap.
-/

namespace TypedResources.Placeholder

open Number

/-- The rest of the text after a placeholder's digits, if the placeholder ends properly. -/
def afterIndex? : List Char → Option (List Char)
  | '\x7d' :: rest => some rest
  | ':' :: rest =>
    match rest.dropWhile (· != '\x7d') with
    | _ :: rest' => some rest'
    | [] => none
  | _ => none

/-- The digits of the placeholder that the text begins with, and what follows it. -/
def item? : List Char → Option (List Char × List Char)
  | '\x7b' :: rest =>
    if rest.takeWhile isDecimalDigit = [] then none
    else (afterIndex? (rest.dropWhile isDecimalDigit)).map (rest.takeWhile isDecimalDigit, ·)
  | _ => none

theorem afterIndex?_length {cs rest : List Char} (h : afterIndex? cs = some rest) :
    rest.length < cs.length := by
  unfold afterIndex? at h
  split at h
  · simp_all
  · rename_i tail
    have hle := (List.dropWhile_suffix (l := tail) (· != '\x7d')).length_le
    split at h
    · rename_i heq
      simp only [heq, List.length_cons, Option.some.injEq] at hle h
      subst h
      simp only [List.length_cons]
      omega
    · simp at h
  · simp at h

theorem item?_length {cs digits rest : List Char} (h : item? cs = some (digits, rest)) :
    rest.length < cs.length := by
  unfold item? at h
  split at h
  · rename_i tail
    split at h
    · simp at h
    · obtain ⟨r, hr, heq⟩ := Option.map_eq_some_iff.1 h
      have := afterIndex?_length hr
      have := (List.dropWhile_suffix (l := tail) isDecimalDigit).length_le
      obtain ⟨-, rfl⟩ := Prod.mk.inj heq
      simp only [List.length_cons]
      omega
  · simp at h

def indexes (cs : List Char) : List (List Char) :=
  match _h : item? cs with
  | some (digits, rest) => digits :: indexes rest
  | none =>
    match cs with
    | [] => []
    | _ :: rest => indexes rest
termination_by cs.length
decreasing_by
  · exact item?_length _h
  · simp

def number (digits : List Char) : Nat :=
  digits.foldl (fun n c => 10 * n + (c.toNat - '0'.toNat)) 0

def arityOf (value : String) : Except Failure (Option Nat) :=
  let found := indexes value.toList
  if found.any (fun digits => maxDecimalDigits < digits.length) then .error .longIndex
  else .ok (found.map number).max?

def arity : Option String → Except Failure (Option Nat)
  | none => .ok none
  | some value => arityOf value

end TypedResources.Placeholder

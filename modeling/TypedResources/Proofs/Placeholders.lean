import Mathlib.Data.List.Basic
import Mathlib.Data.List.Infix
import Mathlib.Data.List.TakeWhile
import Mathlib.Data.Nat.Digits.Defs
import TypedResources.General.List
import TypedResources.Proofs.Rendering
import TypedResources.Proofs.Splitting

/-! Placeholders piece by piece. Every placeholder ends at a close brace and holds no other one, so
the scan of a text comes down to what each piece before a close brace has: the digits behind the
first open brace that they, or they and a format, connect with the end of the piece. -/
namespace TypedResources

namespace Placeholder

open Number

def pieces (cs : List Char) : List (List Char) := (cs.splitOn '\x7d').dropLast

/-- The digits after the open brace that the piece begins with, if there are some and they reach the
end of the piece or a colon. -/
def opened? : List Char → Option (List Char)
  | '\x7b' :: rest =>
    if rest.takeWhile isDecimalDigit ≠ [] ∧
        (rest.dropWhile isDecimalDigit).head?.all (· == ':') = true then
      some (rest.takeWhile isDecimalDigit)
    else none
  | _ => none

/-- The digits that a piece gives, behind the first open brace that has such digits. -/
def taken? (piece : List Char) : Option (List Char) := piece.tails.findSome? opened?

/-- The number that decimal digits write, by the weights of their places. -/
def decimalValue (digits : List Char) : Nat :=
  Nat.ofDigits 10 (digits.reverse.map fun c => c.toNat - '0'.toNat)

theorem taken?_cons (c : Char) (piece : List Char) :
    taken? (c :: piece) = (opened? (c :: piece)).or (taken? piece) := by
  rw [taken?,List.tails_cons,List.findSome?_cons]
  cases opened? (c :: piece) <;> rfl

/-- Behind the digits a placeholder goes on to the next close brace, if at all. -/
theorem afterIndex?_append {cs : List Char} (h : '\x7d' ∉ cs) (rest : List Char) :
    afterIndex? (cs ++ '\x7d' :: rest) =
      if cs.head?.all (· == ':') = true then some rest else none := by
  cases cs with
  | nil => rfl
  | cons c cs =>
    rw [List.mem_cons,not_or] at h
    by_cases hc : c = ':'
    · subst hc
      have hdrop : (cs ++ '\x7d' :: rest).dropWhile (· != '\x7d') = '\x7d' :: rest := by
        rw [List.dropWhile_append_cons_of_neg (by simp),List.dropWhile_bne_of_not_mem h.2,
          List.nil_append]
      simp [afterIndex?,hdrop]
    · have hnone : afterIndex? (c :: (cs ++ '\x7d' :: rest)) = none := by
        unfold afterIndex?
        split
        · rename_i heq
          exact absurd (List.cons.inj heq).1.symm h.1
        · rename_i heq
          exact absurd (List.cons.inj heq).1 hc
        · rfl
      simp [hnone,hc]

theorem afterIndex?_eq_none {cs : List Char} (h : '\x7d' ∉ cs) : afterIndex? cs = none := by
  unfold afterIndex?
  split
  · simp at h
  · rename_i rest
    have hrest : '\x7d' ∉ rest := fun hmem => h (List.mem_cons_of_mem _ hmem)
    rw [List.dropWhile_bne_of_not_mem hrest]
  · rfl

theorem item?_of_ne {c : Char} (h : c ≠ '\x7b') (cs : List Char) : item? (c :: cs) = none := by
  unfold item?
  split
  · rename_i heq
    exact absurd (List.cons.inj heq).1 h
  · rfl

theorem opened?_of_ne {c : Char} (h : c ≠ '\x7b') (cs : List Char) : opened? (c :: cs) = none := by
  unfold opened?
  split
  · rename_i heq
    exact absurd (List.cons.inj heq).1 h
  · rfl

/-- A placeholder that begins in a piece is read off the piece and ends with it. -/
theorem item?_append {c : Char} {cs : List Char} (h : '\x7d' ∉ c :: cs) (rest : List Char) :
    item? (c :: (cs ++ '\x7d' :: rest)) = (opened? (c :: cs)).map (·,rest) := by
  by_cases hc : c = '\x7b'
  · subst hc
    have hdigit : isDecimalDigit '\x7d' = false := by decide
    have hmem : '\x7d' ∉ cs.dropWhile isDecimalDigit :=
      fun hmem => h (List.mem_cons_of_mem _ ((List.dropWhile_suffix _).mem hmem))
    rw [item?,opened?,List.takeWhile_append_cons_of_neg hdigit,
      List.dropWhile_append_cons_of_neg hdigit,afterIndex?_append hmem]
    by_cases hdigits : cs.takeWhile isDecimalDigit = []
    · simp [hdigits]
    · cases hend : (cs.dropWhile isDecimalDigit).head?.all (· == ':') <;> simp [hdigits]
  · rw [item?_of_ne hc,opened?_of_ne hc,Option.map_none]

theorem item?_eq_none {cs : List Char} (h : '\x7d' ∉ cs) : item? cs = none := by
  unfold item?
  split
  · rename_i rest
    have hmem : '\x7d' ∉ rest.dropWhile isDecimalDigit :=
      fun hmem => h (List.mem_cons_of_mem _ ((List.dropWhile_suffix _).mem hmem))
    rw [afterIndex?_eq_none hmem,Option.map_none,ite_self]
  · rfl

theorem indexes_of_item? {cs digits rest : List Char} (h : item? cs = some (digits,rest)) :
    indexes cs = digits :: indexes rest := by
  rw [indexes]
  split
  · rename_i found rest' hfound
    rw [h] at hfound
    obtain ⟨rfl,rfl⟩ := Prod.mk.inj (Option.some.inj hfound)
    rfl
  · rename_i hnone
    rw [h] at hnone
    cases hnone

theorem indexes_of_item?_none {c : Char} {cs : List Char} (h : item? (c :: cs) = none) :
    indexes (c :: cs) = indexes cs := by
  rw [indexes]
  split
  · rename_i found rest hfound
    rw [h] at hfound
    cases hfound
  · rfl

theorem indexes_nil : indexes [] = [] := by
  rw [indexes]
  rfl

/-- Without a close brace there is no placeholder. -/
theorem indexes_eq_nil {cs : List Char} (h : '\x7d' ∉ cs) : indexes cs = [] := by
  induction cs with
  | nil => exact indexes_nil
  | cons c cs ih =>
    rw [indexes_of_item?_none (item?_eq_none h)]
    exact ih fun hmem => h (List.mem_cons_of_mem _ hmem)

/-- The scan takes from a piece what the piece gives, and goes on behind its close brace. -/
theorem indexes_append {piece : List Char} (h : '\x7d' ∉ piece) (rest : List Char) :
    indexes (piece ++ '\x7d' :: rest) = (taken? piece).toList ++ indexes rest := by
  induction piece with
  | nil => exact indexes_of_item?_none (item?_of_ne (by decide) rest)
  | cons c cs ih =>
    have hitem := item?_append h rest
    rw [List.cons_append,taken?_cons]
    cases ho : opened? (c :: cs) with
    | some digits =>
      rw [ho,Option.map_some] at hitem
      exact indexes_of_item? hitem
    | none =>
      rw [ho,Option.map_none] at hitem
      rw [indexes_of_item?_none hitem,Option.none_or]
      exact ih fun hmem => h (List.mem_cons_of_mem _ hmem)

/-- A text is read piece by piece, and the last piece has no close brace. -/
@[elab_as_elim]
theorem piece_induction {motive : List Char → Prop} (last : ∀ cs, '\x7d' ∉ cs → motive cs)
    (next : ∀ piece rest, '\x7d' ∉ piece → motive rest → motive (piece ++ '\x7d' :: rest))
    (cs : List Char) : motive cs := by
  induction hn : cs.length using Nat.strong_induction_on generalizing cs with
  | _ n ih =>
    by_cases hmem : '\x7d' ∈ cs
    · obtain ⟨piece,rest,rfl,hpiece⟩ := List.eq_append_cons_of_mem hmem
      have hlt : rest.length < n := by
        rw [← hn,List.length_append,List.length_cons]
        omega
      exact next piece rest hpiece (ih rest.length hlt rest rfl)
    · exact last cs hmem

theorem pieces_append {piece : List Char} (h : '\x7d' ∉ piece) (rest : List Char) :
    pieces (piece ++ '\x7d' :: rest) = piece :: pieces rest := by
  rw [pieces,List.splitOn_append_cons_self_of_not_mem h,
    List.dropLast_cons_of_ne_nil (List.splitOn_ne_nil _ _)]
  rfl

theorem pieces_eq_nil {cs : List Char} (h : '\x7d' ∉ cs) : pieces cs = [] := by
  rw [pieces,List.splitOn_eq_singleton h]
  rfl

/-- The scan of a text takes what its pieces give. -/
theorem indexes_eq_taken (cs : List Char) : indexes cs = (pieces cs).filterMap taken? := by
  induction cs using piece_induction with
  | last cs h => rw [indexes_eq_nil h,pieces_eq_nil h,List.filterMap_nil]
  | next piece rest h ih =>
    rw [indexes_append h,pieces_append h,ih]
    cases ht : taken? piece <;> simp [ht]

/-- A format may hold open braces, and a brace without digits is passed over. -/
example : indexes "{0:{1}} {a{2}} {{03}}".toList = ["0".toList,"2".toList,"03".toList] := by
  rw [indexes_eq_taken]
  decide

theorem number_eq_decimalValue (digits : List Char) : number digits = decimalValue digits := by
  induction digits using List.reverseRecOn with
  | nil => rfl
  | append_singleton digits c ih =>
    have hstep : number (digits ++ [c]) = 10 * number digits + (c.toNat - '0'.toNat) := by
      simp [number]
    rw [hstep,ih,decimalValue,decimalValue,List.reverse_append,List.reverse_singleton,
      List.singleton_append,List.map_cons,Nat.ofDigits_cons]
    omega

/-- The arity of a text whose pieces give these digits: the highest number among them, unless some
of them are too many to be read. -/
structure Highest (taken : List (List Char)) (answer : Except Failure (Option Nat)) : Prop where
  unnumbered : answer = .ok none ↔ taken = []
  overlong : answer = .error .longIndex ↔ ∃ digits ∈ taken, 4300 < digits.length
  highest : ∀ n, answer = .ok (some n) ↔ (∀ digits ∈ taken, digits.length ≤ 4300) ∧
    n ∈ taken.map decimalValue ∧ ∀ m ∈ taken.map decimalValue, m ≤ n
  nothingElse : ∀ failure, answer = .error failure → failure = .longIndex

theorem arity_eq_ok_iff (value : String) (answer : Option Nat) :
    arity (some value) = .ok answer ↔ (∀ digits ∈ indexes value.toList, digits.length ≤ 4300) ∧
      ((indexes value.toList).map decimalValue).max? = answer := by
  have hnumber : number = decimalValue := funext number_eq_decimalValue
  rw [arity,arityOf,hnumber]
  split
  · rename_i hlong
    obtain ⟨digits,hdigits,hlength⟩ := List.any_eq_true.mp hlong
    have hlt : 4300 < digits.length := of_decide_eq_true hlength
    simp only [reduceCtorEq,false_iff,not_and]
    intro hshort
    have hle := hshort digits hdigits
    omega
  · rename_i hshort
    have hle : ∀ digits ∈ indexes value.toList, digits.length ≤ 4300 := by
      intro digits hdigits
      by_contra hlength
      exact hshort (List.any_eq_true.mpr ⟨digits,hdigits,decide_eq_true (Nat.lt_of_not_le hlength)⟩)
    rw [Except.ok.injEq]
    exact ⟨fun h => ⟨hle,h⟩,fun h => h.2⟩

theorem highest_arity (value : String) :
    Highest (indexes value.toList) (arity (some value)) where
  unnumbered := by
    rw [arity_eq_ok_iff,List.max?_eq_none_iff,List.map_eq_nil_iff]
    constructor
    · exact And.right
    · intro h
      simp [h]
  overlong := by
    rw [arity_eq_error]
    simp [maxDecimalDigits]
  highest n := by rw [arity_eq_ok_iff,List.max?_eq_some_iff]
  nothingElse failure h := ((arity_eq_error _ _).mp h).1

/-- What follows the last close brace of a text; all of the text if there is none. -/
def afterLastClose (cs : List Char) : List Char := (cs.reverse.takeWhile (· != '\x7d')).reverse

theorem afterLastClose_append (piece rest : List Char) :
    afterLastClose (piece ++ '\x7d' :: rest) = afterLastClose rest := by
  have hreverse : (piece ++ '\x7d' :: rest).reverse = rest.reverse ++ '\x7d' :: piece.reverse := by
    simp
  rw [afterLastClose,hreverse,List.takeWhile_append_cons_of_neg (by simp)]
  rfl

theorem afterLastClose_eq {cs : List Char} (h : '\x7d' ∉ cs) : afterLastClose cs = cs := by
  have hmem : '\x7d' ∉ cs.reverse := fun hmem => h (List.mem_reverse.mp hmem)
  rw [afterLastClose,List.takeWhile_bne_of_not_mem hmem,List.reverse_reverse]

theorem indexes_append_of_not_mem {cs : List Char} (h : '\x7b' ∉ cs) (rest : List Char) :
    indexes (cs ++ rest) = indexes rest := by
  induction cs with
  | nil => rfl
  | cons c cs ih =>
    rw [List.mem_cons,not_or] at h
    rw [List.cons_append,indexes_of_item?_none (item?_of_ne (Ne.symm h.1) _),ih h.2]

/-- Where no brace is open, a text can be cut without harm to its placeholders. -/
theorem indexes_append_of_closed {cs : List Char} (h : '\x7b' ∉ afterLastClose cs)
    (rest : List Char) : indexes (cs ++ rest) = indexes cs ++ indexes rest := by
  induction cs using piece_induction with
  | last cs hclose =>
    rw [afterLastClose_eq hclose] at h
    rw [indexes_append_of_not_mem h,indexes_eq_nil hclose,List.nil_append]
  | next piece cs hclose ih =>
    rw [afterLastClose_append] at h
    rw [List.append_assoc,List.cons_append,indexes_append hclose,indexes_append hclose,ih h,
      List.append_assoc]

/-- The higher of two arities. None is the least, and a failure is above all. -/
def higher : Except Failure (Option Nat) → Except Failure (Option Nat) → Except Failure (Option Nat)
  | .ok m, .ok n => .ok (max m n)
  | .ok _, .error failure => .error failure
  | .error failure, _ => .error failure

theorem arityOf_append {u : String} (h : '\x7b' ∉ afterLastClose u.toList) (w : String) :
    arityOf (u ++ w) = higher (arityOf u) (arityOf w) := by
  simp only [arityOf,String.toList_append,indexes_append_of_closed h,List.any_append,
    List.map_append,List.max?_append]
  cases (indexes u.toList).any (fun digits => maxDecimalDigits < digits.length) <;>
    cases (indexes w.toList).any (fun digits => maxDecimalDigits < digits.length) <;> simp [higher]

/-- The arity of a text is the highest number that its pieces give. A text without an open brace
behind its last close brace adds nothing to the placeholders of what follows it, and hides none. -/
theorem arity_by_pieces (value : String) :
    Highest ((pieces value.toList).filterMap taken?) (arity (some value)) ∧
      ∀ rest : String, '\x7b' ∉ afterLastClose value.toList →
        arity (some (value ++ rest)) = higher (arity (some value)) (arity (some rest)) := by
  constructor
  · rw [← indexes_eq_taken]
    exact highest_arity value
  · intro rest h
    exact arityOf_append h rest

theorem arity_of_greeting :
    Highest [['0'],"12".toList] (arity (some "a{0:{7}} b{12}")) ∧
      '\x7b' ∉ afterLastClose "a{0:{7}} b{12}".toList ∧
      arity (some ("a{0:{7}} b{12}" ++ "{3}")) =
        higher (arity (some "a{0:{7}} b{12}")) (arity (some "{3}")) := by
  obtain ⟨hhighest,happend⟩ := arity_by_pieces "a{0:{7}} b{12}"
  have htaken : (pieces "a{0:{7}} b{12}".toList).filterMap taken? = [['0'],"12".toList] := by decide
  have hclosed : '\x7b' ∉ afterLastClose "a{0:{7}} b{12}".toList := by decide
  rw [htaken] at hhighest
  exact ⟨hhighest,hclosed,happend "{3}" hclosed⟩

end Placeholder
end TypedResources

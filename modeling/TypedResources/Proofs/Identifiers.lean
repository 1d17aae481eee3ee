import Mathlib.Logic.Function.Iterate
import TypedResources.Identifier

/-! What sanitizing makes of a name. The result is an identifier, and it is the name itself exactly
when that is an identifier which begins with a letter. A result that begins with an underscore gets
one more underscore in front whenever it is sanitized again. -/
namespace TypedResources

namespace Unicode

namespace Spans

/-- The spans without those at the front that end at the point or before it. -/
def skipTo (n : Nat) : Spans → Spans
  | first :: last :: rest => if last ≤ n then skipTo n rest else first :: last :: rest
  | spans => spans

/-- Each span ends before the next of the others begins. -/
def apart : Spans → Spans → Bool
  | first :: last :: rest, others =>
    (skipTo first others).head?.all (last ≤ ·) && apart rest (skipTo first others)
  | _, _ => true

theorem covers_cons {first last : Nat} {rest : Spans} {n : Nat}
    (h : covers (first :: last :: rest) n = true) :
    first ≤ n ∧ (n < last ∨ covers rest n = true) := by
  rw [covers,offset?] at h
  split at h
  · simp at h
  · rename_i hfirst
    refine ⟨Nat.le_of_not_lt hfirst,?_⟩
    split at h
    · exact Or.inl ‹_›
    · exact Or.inr h

theorem exists_head_le {spans : Spans} {n : Nat} (h : covers spans n = true) :
    ∃ start, spans.head? = some start ∧ start ≤ n := by
  match spans with
  | [] => simp [covers,offset?] at h
  | [_] => simp [covers,offset?] at h
  | first :: _ :: _ => exact ⟨first,rfl,(covers_cons h).1⟩

theorem covers_skipTo {spans : Spans} {m n : Nat} (h : covers spans n = true) (hm : m ≤ n) :
    covers (skipTo m spans) n = true := by
  fun_induction skipTo m spans with
  | case1 first last rest hlast ih =>
    exact ih ((covers_cons h).2.resolve_left (by omega))
  | case2 => exact h
  | case3 => exact h

theorem not_covers_of_apart {spans others : Spans} {n : Nat} (h : apart spans others = true)
    (hn : covers spans n = true) : covers others n = false := by
  rw [← Bool.not_eq_true]
  intro hother
  fun_induction apart spans others with
  | case1 first last rest others ih =>
    obtain ⟨hahead,hrest⟩ := Bool.and_eq_true_iff.mp h
    obtain ⟨hfirst,hin⟩ := covers_cons hn
    have hlater := covers_skipTo hother hfirst
    rcases hin with hlast | hin
    · obtain ⟨start,hstart,hle⟩ := exists_head_le hlater
      have hstop : last ≤ start := by simpa [hstart] using hahead
      omega
    · exact ih hrest hin hlater
  | case2 spans others hshort =>
    rw [covers,offset?.eq_2 spans n hshort] at hn
    simp at hn

end Spans

theorem not_isPart_of_isLetter {c : Char} (h : isLetter c = true) : isPart c = false := by
  have hapart : letterSpans.apart partSpans = true := by decide +kernel
  exact Spans.not_covers_of_apart hapart h

end Unicode

namespace Identifier

open Unicode

/-- A character that may come later in an identifier, if not first. -/
def MayFollow (c : Char) : Prop := isLetter c = true ∨ isPart c = true

/-- A letter or an underscore, and behind it letters, digits, connectors and format characters. -/
def IsIdentifier : List Char → Prop
  | [] => False
  | c :: rest => (isLetter c = true ∨ c = '_') ∧ ∀ d ∈ rest, MayFollow d

/-- The first character of the text is of the kind. -/
def beginsWith (kind : Char → Bool) (cs : List Char) : Bool := cs.head?.any kind

theorem mayFollow_underscore : MayFollow '_' := Or.inr isPart_underscore

theorem keep_eq_self_iff (c : Char) : keep c = c ↔ MayFollow c := by
  rw [keep,MayFollow,← Bool.or_eq_true]
  split
  · simp [*]
  · rename_i hnot
    refine iff_of_false ?_ hnot
    rintro rfl
    exact hnot (by simp [isPart_underscore])

theorem mayFollow_keep (c : Char) : MayFollow (keep c) := by
  by_cases h : MayFollow c
  · rwa [(keep_eq_self_iff c).mpr h]
  · have hkeep : keep c = '_' := by
      rw [MayFollow,← Bool.or_eq_true] at h
      rw [keep,if_neg h]
    rw [hkeep]
    exact mayFollow_underscore

theorem map_keep_eq_self_iff (cs : List Char) : cs.map keep = cs ↔ ∀ c ∈ cs, MayFollow c := by
  simpa [keep_eq_self_iff] using List.map_inj_left (l := cs) (f := keep) (g := id)

/-- What becomes of a name is decided by its first character. -/
theorem sanitizeChars_cons (c : Char) (rest : List Char) :
    isLetter c = true ∧ sanitizeChars (c :: rest) = c :: rest.map keep ∨
    isPart c = true ∧ sanitizeChars (c :: rest) = '_' :: c :: rest.map keep ∨
    ¬ MayFollow c ∧ sanitizeChars (c :: rest) = '_' :: rest.map keep := by
  cases hletter : isLetter c with
  | true => exact Or.inl ⟨rfl,by simp [sanitizeChars,keep,hletter]⟩
  | false =>
    cases hpart : isPart c with
    | true => exact Or.inr (Or.inl ⟨rfl,by simp [sanitizeChars,hletter,hpart]⟩)
    | false =>
      refine Or.inr (Or.inr ⟨by simp [MayFollow,hletter,hpart],?_⟩)
      simp [sanitizeChars,keep,hletter,hpart]

theorem length_sanitizeChars (cs : List Char) :
    (sanitizeChars cs).length = cs.length + if beginsWith isPart cs then 1 else 0 := by
  cases cs with
  | nil => rfl
  | cons c rest =>
    rcases sanitizeChars_cons c rest with ⟨hletter,h⟩ | ⟨hpart,h⟩ | ⟨hnot,h⟩
    · simp [h,beginsWith,not_isPart_of_isLetter hletter]
    · simp [h,beginsWith,hpart]
    · have hpart : isPart c ≠ true := fun hp => hnot (Or.inr hp)
      simp [h,beginsWith,hpart]

theorem isIdentifier_sanitizeChars_iff (cs : List Char) :
    IsIdentifier (sanitizeChars cs) ↔ cs ≠ [] := by
  cases cs with
  | nil => exact iff_of_false id (fun h => h rfl)
  | cons c rest =>
    have hkept : ∀ d ∈ rest.map keep, MayFollow d := by
      simpa using fun d _ => mayFollow_keep d
    refine iff_of_true ?_ (by simp)
    rcases sanitizeChars_cons c rest with ⟨hletter,h⟩ | ⟨hpart,h⟩ | ⟨-,h⟩ <;> rw [h]
    · exact ⟨Or.inl hletter,hkept⟩
    · exact ⟨Or.inr rfl,List.forall_mem_cons.mpr ⟨Or.inr hpart,hkept⟩⟩
    · exact ⟨Or.inr rfl,hkept⟩

/-- Just the identifiers that begin with a letter stay as they are. -/
theorem sanitizeChars_eq_self_iff (cs : List Char) :
    sanitizeChars cs = cs ↔ cs = [] ∨ IsIdentifier cs ∧ beginsWith isLetter cs = true := by
  cases cs with
  | nil => simp [sanitizeChars]
  | cons c rest =>
    rcases sanitizeChars_cons c rest with ⟨hletter,h⟩ | ⟨hpart,h⟩ | ⟨hnot,h⟩
    · simp [h,IsIdentifier,beginsWith,hletter,map_keep_eq_self_iff]
    · have hlonger : sanitizeChars (c :: rest) ≠ c :: rest := fun he => by
        simpa [h] using congrArg List.length he
      have hletter : isLetter c ≠ true := fun hl => by
        simp [not_isPart_of_isLetter hl] at hpart
      simp [hlonger,beginsWith,hletter]
    · have hletter : isLetter c ≠ true := fun hl => hnot (Or.inl hl)
      have hc : '_' ≠ c := fun he => hnot (he ▸ mayFollow_underscore)
      simp [h,hc,beginsWith,hletter]

/-- An underscore in front of an identifier's rest calls for one more. -/
theorem sanitizeChars_underscore {rest : List Char} (h : ∀ d ∈ rest, MayFollow d) :
    sanitizeChars ('_' :: rest) = '_' :: '_' :: rest := by
  have hkept := (map_keep_eq_self_iff rest).mpr h
  simp [sanitizeChars,isLetter_underscore,isPart_underscore,hkept]

/-- Each pass over a text that begins with an underscore adds one. -/
theorem iterate_underscore {rest : List Char} (h : ∀ d ∈ rest, MayFollow d) (k : Nat) :
    sanitizeChars^[k] ('_' :: rest) = List.replicate k '_' ++ '_' :: rest := by
  induction k generalizing rest with
  | zero => rfl
  | succ k ih =>
    have hlonger : ∀ d ∈ '_' :: rest, MayFollow d :=
      List.forall_mem_cons.mpr ⟨mayFollow_underscore,h⟩
    rw [Function.iterate_succ_apply,sanitizeChars_underscore h,ih hlonger,List.replicate_succ',
      List.append_assoc,List.singleton_append]

theorem exists_underscore {cs : List Char} (h : IsIdentifier cs)
    (hletter : beginsWith isLetter cs = false) :
    ∃ rest, cs = '_' :: rest ∧ ∀ d ∈ rest, MayFollow d := by
  match cs,h with
  | c :: rest,⟨hfirst,hrest⟩ =>
    have hc : c = '_' := hfirst.resolve_left fun hl => by simp [beginsWith,hl] at hletter
    exact ⟨rest,by rw [hc],hrest⟩

theorem toList_sanitize (name : String) : (sanitize name).toList = sanitizeChars name.toList :=
  String.toList_ofList

theorem sanitize_eq_empty_iff (name : String) : sanitize name = "" ↔ name = "" := by
  rw [← String.toList_eq_nil_iff,toList_sanitize,sanitizeChars_eq_nil_iff,
    String.toList_eq_nil_iff]

theorem isIdentifier_sanitize_iff (name : String) :
    IsIdentifier (sanitize name).toList ↔ name ≠ "" := by
  rw [toList_sanitize,isIdentifier_sanitizeChars_iff,ne_eq,String.toList_eq_nil_iff]

theorem sanitize_eq_self_iff (name : String) :
    sanitize name = name ↔
      name = "" ∨ IsIdentifier name.toList ∧ beginsWith isLetter name.toList = true := by
  rw [← String.toList_inj,toList_sanitize,sanitizeChars_eq_self_iff,String.toList_eq_nil_iff]

theorem toList_iterate_sanitize (k : Nat) (name : String) :
    (sanitize^[k] name).toList = sanitizeChars^[k] name.toList :=
  (show Function.Semiconj String.toList sanitize sanitizeChars from toList_sanitize).iterate_right
    k name

/-- What further passes make of an identifier that does not begin with a letter. -/
theorem iterate_sanitize {name : String} (h : IsIdentifier name.toList)
    (hletter : beginsWith isLetter name.toList = false) (k : Nat) :
    sanitize^[k] name = String.ofList (List.replicate k '_') ++ name := by
  obtain ⟨rest,hname,hrest⟩ := exists_underscore h hletter
  rw [← String.toList_inj,toList_iterate_sanitize,String.toList_append,String.toList_ofList,hname,
    iterate_underscore hrest]

/-- Sanitizing gives an identifier for every name but the empty one. It is longer than the name, by
one character, exactly if the name begins with a character that may only come later, and it is the
name exactly if that is an identifier which begins with a letter. Further passes change nothing if
the identifier begins with a letter, and add an underscore each if it does not. -/
theorem sanitized_by_first_character (name : String) :
    (sanitize name = "" ↔ name = "") ∧
    (IsIdentifier (sanitize name).toList ↔ name ≠ "") ∧
    (sanitize name).length = name.length + (if beginsWith isPart name.toList then 1 else 0) ∧
    (sanitize name = name ↔
      name = "" ∨ IsIdentifier name.toList ∧ beginsWith isLetter name.toList = true) ∧
    ∀ k, sanitize^[k] (sanitize name) =
      if sanitize name = "" ∨ beginsWith isLetter (sanitize name).toList = true then sanitize name
      else String.ofList (List.replicate k '_') ++ sanitize name := by
  have hlegal := isIdentifier_sanitize_iff name
  refine ⟨sanitize_eq_empty_iff name,hlegal,?_,sanitize_eq_self_iff name,fun k => ?_⟩
  · rw [← String.length_toList,toList_sanitize,length_sanitizeChars,String.length_toList]
  · split
    · rename_i hstays
      refine Function.iterate_fixed ((sanitize_eq_self_iff _).mpr ?_) k
      rw [sanitize_eq_empty_iff] at hstays ⊢
      by_cases hempty : name = ""
      · exact Or.inl hempty
      · exact Or.inr ⟨hlegal.mpr hempty,hstays.resolve_left hempty⟩
    · rename_i hgrows
      rw [not_or,sanitize_eq_empty_iff,Bool.not_eq_true] at hgrows
      exact iterate_sanitize (hlegal.mpr hgrows.1) hgrows.2 k

end Identifier
end TypedResources

import Mathlib.Algebra.GroupWithZero.Nat
import Mathlib.Data.List.Basic
import TypedResources.Unicode.Case

/-! What lower case does to a text with slashes: the slashes stay, nothing else becomes one, and
nothing vanishes. It is the same for texts that differ in the case of the letters A to Z. -/
namespace TypedResources
namespace Unicode

theorem shiftedBy?_eq_some {shifts : List CaseShift} {n m : Nat}
    (h : shiftedBy? shifts n = some m) : ∃ shift ∈ shifts, shift.shifted? n = some m := by
  induction shifts with
  | nil => simp [shiftedBy?] at h
  | cons shift rest ih =>
    unfold shiftedBy? at h
    split at h
    · simp at h
    · rcases Option.or_eq_some_iff.mp h with hs | ⟨-,hrest⟩
      · exact ⟨shift,by simp,hs⟩
      · obtain ⟨s,hs,hm⟩ := ih hrest
        exact ⟨s,by simp [hs],hm⟩

/-- A character stays as it is or takes one of the shifts; where that leads to no character, to NUL. -/
theorem lowerChar_cases (c : Char) : lowerChar c = c ∨
    ∃ shift ∈ caseShifts, shift.first ≤ c.toNat ∧ c.toNat ≤ shift.last ∧
      (((lowerChar c).toNat : Int) = c.toNat + shift.delta ∨ (lowerChar c).toNat = 0) := by
  cases hshifted : shiftedBy? caseShifts c.toNat with
  | none => exact Or.inl (by simp only [lowerChar,hshifted])
  | some m =>
    obtain ⟨shift,hshift,hm⟩ := shiftedBy?_eq_some hshifted
    unfold CaseShift.shifted? at hm
    split at hm
    · rename_i hin
      obtain rfl := Option.some.inj hm
      refine Or.inr ⟨shift,hshift,hin.1,hin.2.1,?_⟩
      simp only [lowerChar,hshifted]
      by_cases hvalid : (c.toNat + shift.delta).toNat.isValidChar
      · have hnat : (Char.ofNat (c.toNat + shift.delta).toNat).toNat =
            (c.toNat + shift.delta).toNat := by
          rw [Char.ofNat,dif_pos hvalid]
          rfl
        omega
      · refine Or.inr ?_
        rw [Char.ofNat,dif_neg hvalid]
        rfl
    · simp at hm

/-- No character shifts to a slash or below it. -/
theorem slash_lt_of_caseShifts : ∀ shift ∈ caseShifts, (47 : Int) < shift.first + shift.delta := by
  decide +kernel

theorem lowerChar_ne_slash {c : Char} (h : c ≠ '/') : lowerChar c ≠ '/' := by
  rcases lowerChar_cases c with hsame | ⟨shift,hshift,hfirst,-,hnat⟩
  · rwa [hsame]
  · intro hslash
    have hlow := slash_lt_of_caseShifts shift hshift
    have h47 : (lowerChar c).toNat = 47 := congrArg Char.toNat hslash
    omega

/-- How many characters other than slashes a character is in lower case. -/
def weight (c : Char) : Nat := if c = '/' then 0 else if c = 'İ' then 2 else 1

theorem countP_lowerFrom (before cs : List Char) :
    (lowerFrom before cs).countP (· ≠ '/') = (cs.map weight).sum := by
  induction cs generalizing before with
  | nil => rfl
  | cons c rest ih =>
    rw [lowerFrom,List.countP_append,ih,List.map_cons,List.sum_cons]
    congr 1
    by_cases hsigma : c = 'Σ'
    · rw [if_pos hsigma,hsigma]
      cases isFinalSigma before rest <;> decide
    · rw [if_neg hsigma]
      by_cases hdot : c = 'İ'
      · rw [if_pos hdot,hdot]
        decide
      · rw [if_neg hdot]
        by_cases hslash : c = '/'
        · rw [hslash]
          decide
        · simp [weight,hslash,hdot,lowerChar_ne_slash hslash]

/-- Texts that are alike in lower case have the same weight. -/
theorem weight_eq_of_lower_eq {s t : String} (h : lower s = lower t) :
    (s.toList.map weight).sum = (t.toList.map weight).sum := by
  have hchars : lowerChars s.toList = lowerChars t.toList := by
    have hlist := congrArg String.toList h
    simpa [lower] using hlist
  rw [← countP_lowerFrom [],← countP_lowerFrom []]
  exact congrArg _ hchars

theorem weight_eq_zero_iff (cs : List Char) : (cs.map weight).sum = 0 ↔ ∀ c ∈ cs, c = '/' := by
  have hone : ∀ c, weight c = 0 ↔ c = '/' := by
    intro c
    unfold weight
    split
    · simp [*]
    · split <;> simp [*]
  simp [List.sum_eq_zero_iff_forall_eq_nat,hone]

theorem getLast?_lowerFrom_slash (before cs : List Char) :
    (lowerFrom before (cs ++ ['/'])).getLast? = some '/' := by
  induction cs generalizing before with
  | nil => rfl
  | cons c rest ih =>
    rw [List.cons_append,lowerFrom,List.getLast?_append,ih]
    rfl

/-- The letters whose small letter is another one in ASCII. -/
def capitals : List Char := "ABCDEFGHIJKLMNOPQRSTUVWXYZ".toList

theorem mem_capitals {c : Char} (hlow : 65 ≤ c.toNat) (hhigh : c.toNat ≤ 90) : c ∈ capitals := by
  have hcapitals : ∀ n, n < 91 → 65 ≤ n → Char.ofNat n ∈ capitals := by decide
  have hmem := hcapitals c.toNat (by omega) hlow
  rwa [Char.ofNat_toNat] at hmem

theorem toLower_of_not_mem_capitals {c : Char} (h : c ∉ capitals) : c.toLower = c := by
  refine dif_neg ?_
  rintro ⟨hlow,hhigh⟩
  exact h (mem_capitals hlow hhigh)

/-- What all capitals share with their small letters, every character does. -/
theorem apply_toLower {α : Type} {f : Char → α}
    (h : capitals.map (fun c => f c.toLower) = capitals.map f) (c : Char) :
    f c.toLower = f c := by
  by_cases hc : c ∈ capitals
  · exact List.map_inj_left.mp h c hc
  · rw [toLower_of_not_mem_capitals hc]

theorem toLower_eq_iff (mark : Char) (h : mark ∉ capitals ++ capitals.map Char.toLower)
    (c : Char) : c.toLower = mark ↔ c = mark := by
  rw [List.mem_append,not_or] at h
  by_cases hc : c ∈ capitals
  · exact iff_of_false (fun he => h.2 (he ▸ List.mem_map_of_mem hc)) fun he => h.1 (he ▸ hc)
  · rw [toLower_of_not_mem_capitals hc]

theorem isCased_toLower (c : Char) : isCased c.toLower = isCased c := apply_toLower (by decide) c

theorem isCaseIgnorable_toLower (c : Char) : isCaseIgnorable c.toLower = isCaseIgnorable c :=
  apply_toLower (by decide) c

theorem lowerChar_toLower (c : Char) : lowerChar c.toLower = lowerChar c :=
  apply_toLower (by decide) c

theorem isFinalSigma_map_toLower (before after : List Char) :
    isFinalSigma (before.map Char.toLower) (after.map Char.toLower) =
      isFinalSigma before after := by
  have hignorable : isCaseIgnorable ∘ Char.toLower = isCaseIgnorable :=
    funext isCaseIgnorable_toLower
  simp only [isFinalSigma,List.dropWhile_map,hignorable,List.head?_map,Option.any_map,
    isCased_toLower]

theorem lowerFrom_map_toLower (before cs : List Char) :
    lowerFrom (before.map Char.toLower) (cs.map Char.toLower) = lowerFrom before cs := by
  induction cs generalizing before with
  | nil => rfl
  | cons c rest ih =>
    have hsigma := toLower_eq_iff 'Σ' (by decide) c
    have hdot := toLower_eq_iff 'İ' (by decide) c
    have hrest := ih (c :: before)
    rw [List.map_cons] at hrest
    simp only [List.map_cons,lowerFrom,isFinalSigma_map_toLower,lowerChar_toLower,hsigma,hdot,
      hrest]

theorem lowerChars_map_toLower (cs : List Char) :
    lowerChars (cs.map Char.toLower) = lowerChars cs :=
  lowerFrom_map_toLower [] cs

end Unicode
end TypedResources

import TypedResources.General.List
import TypedResources.Proofs.Splitting

/-! What it takes to name a resource file. No character becomes one of the extension in lower case
but that character itself and its capital, so a path names a resource file exactly when its base name
ends with the extension in capital or small letters. -/
namespace TypedResources

namespace Unicode

def extension : List Char := ".resx".toList

/-- Only the letters from A to Z shift to characters of the extension. -/
theorem shift_misses_extension : ∀ shift ∈ caseShifts, ∀ code ∈ extension.map Char.toNat,
    shift.first = 65 ∧ shift.last = 90 ∨ (code : Int) < shift.first + shift.delta ∨
      shift.last + shift.delta < code := by
  decide +kernel

theorem lowerChar_eq_iff {d : Char} (hd : d ∈ extension) (c : Char) :
    lowerChar c = d ↔ c.toLower = d := by
  have hcapitals : capitals.map lowerChar = capitals.map Char.toLower := by decide
  have hsmall : extension.map lowerChar = extension.map id := by decide
  have hzero : 0 ∉ extension.map Char.toNat := by decide
  have hcode : d.toNat ∈ extension.map Char.toNat := List.mem_map_of_mem hd
  by_cases hc : c ∈ capitals
  · rw [List.map_inj_left.mp hcapitals c hc]
  · rw [toLower_of_not_mem_capitals hc]
    rcases lowerChar_cases c with hsame | ⟨shift,hshift,hfirst,hlast,hnat⟩
    · rw [hsame]
    · refine ⟨fun h => ?_,fun h => h ▸ List.map_inj_left.mp hsmall d hd⟩
      have hd' : (lowerChar c).toNat = d.toNat := congrArg Char.toNat h
      have hpositive : d.toNat ≠ 0 := fun hnil => hzero (hnil ▸ hcode)
      rcases shift_misses_extension shift hshift _ hcode with ⟨h65,h90⟩ | hmiss | hmiss
      · exact absurd (mem_capitals (by omega) (by omega)) hc
      · omega
      · omega

section Lowering

variable (before rest : List Char) {c : Char}

theorem lowerFrom_of_mem (h : c.toLower ∈ extension) :
    lowerFrom before (c :: rest) = c.toLower :: lowerFrom (c :: before) rest := by
  have hsigma : c ≠ 'Σ' := by
    rintro rfl
    exact absurd h (by decide)
  have hdot : c ≠ 'İ' := by
    rintro rfl
    exact absurd h (by decide)
  rw [lowerFrom,if_neg hsigma,if_neg hdot,(lowerChar_eq_iff h c).mpr rfl]
  rfl

theorem lowerFrom_of_not_mem (h : c.toLower ∉ extension) : ∃ first more,
    lowerFrom before (c :: rest) = first :: more ++ lowerFrom (c :: before) rest ∧
      ∀ d ∈ first :: more, d ∉ extension := by
  have hshifted : lowerChar c ∉ extension := fun hd => h ((lowerChar_eq_iff hd c).mp rfl ▸ hd)
  rw [lowerFrom]
  by_cases hsigma : c = 'Σ'
  · rw [if_pos hsigma]
    refine ⟨_,[],rfl,List.forall_mem_singleton.mpr ?_⟩
    cases isFinalSigma before rest <;> decide
  · rw [if_neg hsigma]
    by_cases hdot : c = 'İ'
    · rw [if_pos hdot]
      refine ⟨_,_,rfl,List.forall_mem_cons.mpr ⟨?_,List.forall_mem_singleton.mpr ?_⟩⟩ <;> decide
    · rw [if_neg hdot]
      exact ⟨_,[],rfl,by simpa using hshifted⟩

end Lowering

/-- Characters of the extension come from nothing but themselves and their capitals. -/
theorem eq_lowerFrom_iff {mark : List Char} (h : ∀ d ∈ mark, d ∈ extension)
    (before cs : List Char) : mark = lowerFrom before cs ↔ mark = cs.map Char.toLower := by
  induction cs generalizing mark before with
  | nil => rfl
  | cons c rest ih =>
    by_cases hc : c.toLower ∈ extension
    · rw [lowerFrom_of_mem before rest hc,List.map_cons]
      cases mark with
      | nil => simp
      | cons m marks =>
        rw [List.cons_eq_cons,List.cons_eq_cons,ih fun d hd => h d (List.mem_cons_of_mem _ hd)]
    · obtain ⟨first,more,hlower,hnot⟩ := lowerFrom_of_not_mem before rest hc
      rw [hlower,List.map_cons]
      refine iff_of_false ?_ ?_
      · rintro rfl
        exact hnot first List.mem_cons_self (h first List.mem_cons_self)
      · rintro rfl
        exact hc (h _ List.mem_cons_self)

/-- Lower case ends with characters of the extension where the small letters do. -/
theorem suffix_lowerFrom_iff {mark : List Char} (h : ∀ d ∈ mark, d ∈ extension)
    (before cs : List Char) : mark <:+ lowerFrom before cs ↔ mark <:+ cs.map Char.toLower := by
  induction cs generalizing before with
  | nil => rfl
  | cons c rest ih =>
    have hwhole := eq_lowerFrom_iff h before (c :: rest)
    rw [List.map_cons] at hwhole
    rw [List.map_cons,List.suffix_cons_iff,← hwhole,← ih (c :: before)]
    by_cases hc : c.toLower ∈ extension
    · rw [lowerFrom_of_mem before rest hc,List.suffix_cons_iff]
    · obtain ⟨first,more,hlower,hnot⟩ := lowerFrom_of_not_mem before rest hc
      have hblock : ∀ d ∈ first :: more, d ∉ mark := fun d hd hm => hnot d hd (h d hm)
      have hne : mark ≠ first :: more ++ lowerFrom (c :: before) rest := by
        rintro rfl
        exact hblock first List.mem_cons_self List.mem_cons_self
      rw [hlower,List.suffix_append_iff_of_not_mem hblock]
      exact (or_iff_right hne).symm

end Unicode

namespace Path

theorem baseName_append (front : List Char) {back : List Char} (h : '/' ∉ back) :
    baseName (front ++ back) = baseName front ++ back := by
  have hmem : '/' ∉ back.reverse := by simpa using h
  rw [baseName,baseName,List.reverse_append,
    List.takeWhile_append_of_pos (List.all_bne_of_not_mem hmem),List.reverse_append,
    List.reverse_reverse]

end Path

namespace Key

open TypedResources.Path Unicode

def IsExtension (cs : List Char) : Prop := cs.map Char.toLower = extension

instance (cs : List Char) : Decidable (IsExtension cs) :=
  inferInstanceAs (Decidable (cs.map Char.toLower = extension))

/-- A path names a resource file exactly when it ends with the extension, letter case apart. -/
theorem isResourcePath_iff (path : String) : isResourcePath path = true ↔
    ∃ front back, path.toList = front ++ back ∧ IsExtension back := by
  rw [isResourcePath,List.isSuffixOf_iff_suffix,lowerChars,
    show ".resx".toList = extension from rfl,suffix_lowerFrom_iff (fun _ hd => hd),
    List.suffix_map_iff]
  constructor
  · rintro ⟨back,⟨front,hpath⟩,hback⟩
    exact ⟨front,back,hpath.symm,hback.symm⟩
  · rintro ⟨front,back,hpath,hback⟩
    exact ⟨back,⟨front,hpath.symm⟩,hback.symm⟩

theorem exists_letters {back : List Char} (h : IsExtension back) :
    ∃ letters, back = '.' :: letters ∧ letters.length = 4 ∧ '.' ∉ letters ∧ '/' ∉ letters := by
  have hdot := toLower_eq_iff '.' (by decide)
  have hcons : back.map Char.toLower = '.' :: "resx".toList := h
  obtain ⟨first,letters,rfl,hfirst,hletters⟩ := List.map_eq_cons_iff.mp hcons
  have hmem (mark : Char) (hmark : mark.toLower ∉ "resx".toList) : mark ∉ letters := by
    intro hm
    exact hmark (hletters ▸ List.mem_map_of_mem hm)
  refine ⟨letters,by rw [(hdot first).mp hfirst],?_,hmem '.' (by decide),hmem '/' (by decide)⟩
  simpa using congrArg List.length hletters

theorem slash_not_mem_of_isExtension {back : List Char} (h : IsExtension back) : '/' ∉ back := by
  obtain ⟨letters,rfl,-,-,hslash⟩ := exists_letters h
  simp [hslash]

/-- Whether a path names a resource file shows from its base name. -/
theorem isResourcePath_iff_baseName (path : String) : isResourcePath path = true ↔
    ∃ front back, baseName path.toList = front ++ back ∧ IsExtension back := by
  rw [isResourcePath_iff]
  constructor
  · rintro ⟨front,back,hpath,hback⟩
    rw [hpath,baseName_append front (slash_not_mem_of_isExtension hback)]
    exact ⟨_,back,rfl,hback⟩
  · rintro ⟨front,back,hbase,hback⟩
    refine ⟨lead path.toList ++ front,back,?_,hback⟩
    rw [List.append_assoc,← hbase,lead_append_baseName]

end Key
end TypedResources

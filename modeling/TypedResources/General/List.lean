import Mathlib.Data.List.Forall2
import Mathlib.Data.List.Infix
import Mathlib.Data.List.TakeWhile

/-! What is used of lists beyond the library: cutting them at an item, erasing repeats, and how their
items lie. -/
namespace List

variable {α β : Type}

section Stop

variable {p : α → Bool} {x : α} (h : p x = false)
include h

theorem takeWhile_append_cons_of_neg (xs ys : List α) :
    (xs ++ x :: ys).takeWhile p = xs.takeWhile p := by
  induction xs with
  | nil => simp [h]
  | cons y xs ih => cases hy : p y <;> simp [hy,ih]

theorem dropWhile_append_cons_of_neg (xs ys : List α) :
    (xs ++ x :: ys).dropWhile p = xs.dropWhile p ++ x :: ys := by
  induction xs with
  | nil => simp [h]
  | cons y xs ih => cases hy : p y <;> simp [hy,ih]

end Stop

/-- The front of a list is what satisfies a property, up to the first item that does not. -/
theorem takeWhile_eq_iff (p : α → Bool) (xs front : List α) :
    xs.takeWhile p = front ↔
      ∃ rest, xs = front ++ rest ∧ (∀ x ∈ front, p x = true) ∧ ∀ x ∈ rest.head?, p x = false := by
  constructor
  · rintro rfl
    refine ⟨xs.dropWhile p,takeWhile_append_dropWhile.symm,?_,?_⟩
    · exact fun x hx => mem_takeWhile_imp hx
    · intro x hx
      have hstop := head?_dropWhile_not p xs
      rw [Option.mem_def] at hx
      simpa [hx] using hstop
  · rintro ⟨rest,rfl,hfront,hrest⟩
    rw [takeWhile_append_of_pos hfront]
    cases rest with
    | nil => simp
    | cons x more => simp [hrest x rfl]

section Around

variable {x : α}

theorem exists_middle_of_not_mem_front {front rest : List α} (hx : x ∉ front) {before after : List α}
    (h : front ++ rest = before ++ x :: after) :
    ∃ middle, before = front ++ middle ∧ rest = middle ++ x :: after := by
  rcases append_eq_append_iff.mp h with ⟨middle,hbefore,hrest⟩ | ⟨middle,hfront,hafter⟩
  · exact ⟨middle,hbefore,hrest⟩
  · cases middle with
    | nil => exact ⟨[],by rw [hfront,append_nil,append_nil],hafter.symm⟩
    | cons y more =>
      obtain ⟨rfl,-⟩ := cons.inj hafter
      exact absurd (by simp [hfront]) hx

theorem exists_middle_of_not_mem_rest {front rest : List α} (hx : x ∉ rest) {before after : List α}
    (h : before ++ x :: after = front ++ rest) :
    ∃ middle, front = before ++ x :: middle ∧ after = middle ++ rest := by
  rcases append_eq_append_iff.mp h with ⟨middle,hfront,hafter⟩ | ⟨middle,-,hrest⟩
  · cases middle with
    | nil =>
      rw [nil_append] at hafter
      exact absurd (by simp [← hafter]) hx
    | cons y more =>
      obtain ⟨rfl,hmore⟩ := cons.inj hafter
      exact ⟨more,hfront,hmore⟩
  · exact absurd (by simp [hrest]) hx

theorem append_cons_prefix_iff {as bs : List α} (ha : x ∉ as) (hb : x ∉ bs) (us vs : List α) :
    as ++ x :: us <+: bs ++ x :: vs ↔ as = bs ∧ us <+: vs := by
  induction as generalizing bs with
  | nil =>
    cases bs with
    | nil => simp [cons_prefix_cons]
    | cons b bs =>
      have hne : x ≠ b := fun he => hb (by simp [he])
      simp [cons_prefix_cons,hne]
  | cons a as ih =>
    cases bs with
    | nil =>
      have hne : a ≠ x := fun he => ha (by simp [he])
      simp [cons_prefix_cons,hne]
    | cons b bs =>
      rw [mem_cons,not_or] at ha hb
      rw [cons_append,cons_append,cons_prefix_cons,ih ha.2 hb.2,cons.injEq,and_assoc]

theorem append_cons_not_prefix {as bs : List α} (hb : x ∉ bs) (us : List α) :
    ¬ as ++ x :: us <+: bs := by
  intro h
  exact hb (h.subset (by simp))

end Around

/-- Items that a list does not hold add nothing to its being at the end. -/
theorem suffix_append_iff_of_not_mem {xs ys zs : List α} (h : ∀ y ∈ ys, y ∉ xs) :
    xs <:+ ys ++ zs ↔ xs <:+ zs := by
  induction ys with
  | nil => rfl
  | cons y ys ih =>
    have hy : xs ≠ y :: (ys ++ zs) := by
      rintro rfl
      exact h y mem_cons_self mem_cons_self
    rw [cons_append,suffix_cons_iff,ih fun y hy => h y (mem_cons_of_mem _ hy)]
    simp [hy]

theorem append_lt_of_not_continued {as bs : List Char} (h : bs < as) (hstart : ¬ bs <+: as)
    (xs : List Char) : bs ++ xs < as := by
  induction bs generalizing as with
  | nil => exact absurd nil_prefix hstart
  | cons b bs ih =>
    cases as with
    | nil => exact absurd h (not_lt_nil _)
    | cons a as =>
      rw [cons_append,cons_lt_cons_iff]
      rcases cons_lt_cons_iff.mp h with hlt | ⟨rfl,hlt⟩
      · exact Or.inl hlt
      · exact Or.inr ⟨rfl,ih hlt fun hp => hstart (cons_prefix_cons.mpr ⟨rfl,hp⟩)⟩

/-- Joining is the same as closing each but the last. -/
theorem intercalate_concat (x : α) (xss : List (List α)) (xs : List α) :
    [x].intercalate (xss ++ [xs]) = (xss.flatMap fun ys => ys ++ [x]) ++ xs := by
  induction xss with
  | nil => simp
  | cons ys xss ih =>
    rw [cons_append,intercalate_cons_of_ne_nil (by simp),ih]
    simp

theorem max?_append (xs ys : List Nat) : (xs ++ ys).max? = max xs.max? ys.max? := by
  induction xs with
  | nil => cases h : ys.max? <;> simp [h]
  | cons x xs ih =>
    rw [cons_append,max?_cons,max?_cons,ih]
    cases xs.max? <;> cases ys.max? <;> simp [Option.elim,max_assoc]

theorem exists_mem_zip {xs : List α} {ys : List β} (hlen : xs.length = ys.length)
    {x : α} (hx : x ∈ xs) : ∃ y, (x,y) ∈ xs.zip ys := by
  obtain ⟨i,hi,rfl⟩ := mem_iff_getElem.mp hx
  refine ⟨ys[i],mem_iff_getElem.mpr ⟨i,by simp; omega,by simp⟩⟩

theorem Forall₂.exists_of_mem {R : α → β → Prop} {xs : List α} {ys : List β}
    (h : List.Forall₂ R xs ys) {x : α} (hx : x ∈ xs) : ∃ y ∈ ys, R x y := by
  induction h with
  | nil => cases hx
  | cons hxy _ ih =>
    rcases mem_cons.mp hx with rfl | hx
    · exact ⟨_,by simp,hxy⟩
    · obtain ⟨y,hy,hxy⟩ := ih hx
      exact ⟨y,by simp [hy],hxy⟩

/-- Sorting keeps the order of items that it does not tell apart. -/
theorem filter_mergeSort {le : α → α → Bool}
    (htrans : ∀ a b c, le a b = true → le b c = true → le a c = true)
    (htotal : ∀ a b, (le a b || le b a) = true) {p : α → Bool} {xs : List α}
    (h : ∀ a ∈ xs, ∀ b ∈ xs, p a = true → p b = true → le a b = true) :
    (xs.mergeSort le).filter p = xs.filter p := by
  have hordered : (xs.filter p).Pairwise fun a b => le a b = true := by
    refine pairwise_of_forall_mem_list fun a ha b hb => ?_
    obtain ⟨ha,hpa⟩ := mem_filter.mp ha
    obtain ⟨hb,hpb⟩ := mem_filter.mp hb
    exact h a ha b hb hpa hpb
  have hsub : (xs.filter p).Sublist ((xs.mergeSort le).filter p) := by
    have hfilter := (sublist_mergeSort htrans htotal hordered filter_sublist).filter p
    simpa only [filter_filter,Bool.and_self] using hfilter
  have hlength := ((mergeSort_perm xs le).filter p).length_eq
  exact (hsub.eq_of_length hlength.symm).symm

section Cut

variable [BEq α] [LawfulBEq α]

section Missing

variable {x : α} {xs : List α} (h : x ∉ xs)
include h

theorem all_bne_of_not_mem : ∀ y ∈ xs, (y != x) = true := by
  intro y hy
  have hne : y ≠ x := fun he => h (he ▸ hy)
  simpa using hne

theorem takeWhile_bne_of_not_mem : xs.takeWhile (· != x) = xs :=
  takeWhile_eq_self_iff.mpr (all_bne_of_not_mem h)

theorem dropWhile_bne_of_not_mem : xs.dropWhile (· != x) = [] :=
  dropWhile_eq_nil_iff.mpr (all_bne_of_not_mem h)

theorem splitOn_append_of_not_mem (ys : List α) :
    (xs ++ ys).splitOn x = (ys.splitOn x).modifyHead (xs ++ ·) := by
  induction xs with
  | nil => cases hys : ys.splitOn x <;> simp [hys]
  | cons y xs ih =>
    rw [mem_cons,not_or] at h
    have hne : ¬ (y == x) = true := by simpa using Ne.symm h.1
    rw [cons_append,splitOn_cons_eq_if_modifyHead,if_neg hne,ih h.2,modifyHead_modifyHead]
    rfl

end Missing

theorem not_mem_of_mem_splitOn {x : α} {xs piece : List α} (h : piece ∈ xs.splitOn x) :
    x ∉ piece := by
  induction xs generalizing piece with
  | nil =>
    rw [splitOn_nil,mem_singleton] at h
    simp [h]
  | cons y xs ih =>
    rw [splitOn_cons_eq_if_modifyHead] at h
    split at h
    · rcases mem_cons.mp h with rfl | h
      · simp
      · exact ih h
    · rename_i hne
      cases hpieces : xs.splitOn x with
      | nil => exact absurd hpieces (splitOn_ne_nil x xs)
      | cons first rest =>
        rw [hpieces,modifyHead_cons] at h
        rw [hpieces] at ih
        rcases mem_cons.mp h with rfl | h
        · have hx : x ≠ y := fun he => hne (by simp [he])
          simpa [hx] using ih mem_cons_self
        · exact ih (mem_cons_of_mem _ h)

theorem head?_splitOn (x : α) (xs : List α) :
    (xs.splitOn x).head? = some (xs.takeWhile (· != x)) := by
  by_cases hx : x ∈ xs
  · obtain ⟨before,after,rfl,hbefore⟩ := eq_append_cons_of_mem hx
    rw [splitOn_append_cons_self_of_not_mem hbefore,head?_cons,
      takeWhile_append_cons_of_neg (by simp),takeWhile_bne_of_not_mem hbefore]
  · rw [splitOn_eq_singleton hx,head?_cons,takeWhile_bne_of_not_mem hx]

/-- The second of the pieces begins behind the first separator. -/
theorem splitOn_getElem?_one (x : α) (xs : List α) (piece : List α) :
    (xs.splitOn x)[1]? = some piece ↔
      ∃ before after, xs = before ++ x :: after ∧ x ∉ before ∧ piece = after.takeWhile (· != x) := by
  constructor
  · intro h
    by_cases hx : x ∈ xs
    · obtain ⟨before,after,rfl,hbefore⟩ := eq_append_cons_of_mem hx
      rw [splitOn_append_cons_self_of_not_mem hbefore,getElem?_cons_succ,
        ← head?_eq_getElem?,head?_splitOn] at h
      exact ⟨before,after,rfl,hbefore,(Option.some.inj h).symm⟩
    · simp [splitOn_eq_singleton hx] at h
  · rintro ⟨before,after,rfl,hbefore,rfl⟩
    rw [splitOn_append_cons_self_of_not_mem hbefore,getElem?_cons_succ,
      ← head?_eq_getElem?,head?_splitOn]

end Cut

section Repeats

variable [BEq α] [LawfulBEq α]

theorem nodup_eraseDups (xs : List α) : xs.eraseDups.Nodup := by
  -- the induction is on the length, since erasing filters the rest of the list first
  induction hn : xs.length using Nat.strong_induction_on generalizing xs with
  | _ n ih =>
    cases xs with
    | nil => simp
    | cons x rest =>
      rw [eraseDups_cons,nodup_cons]
      refine ⟨by simp,ih (rest.filter fun b => !b == x).length ?_ _ rfl⟩
      have hle := length_filter_le (fun b => !b == x) rest
      simp only [length_cons] at hn
      omega

theorem eraseDups_of_nodup {xs : List α} (h : xs.Nodup) : xs.eraseDups = xs := by
  induction xs with
  | nil => rfl
  | cons x rest ih =>
    obtain ⟨hnew,hrest⟩ := nodup_cons.mp h
    have hkept : rest.filter (fun b => !b == x) = rest := by
      rw [filter_eq_self]
      intro b hb
      have hne : b ≠ x := fun he => hnew (he ▸ hb)
      simpa using hne
    rw [eraseDups_cons,hkept,ih hrest]

theorem removeAll_singleton (x : α) (xs : List α) :
    [x].removeAll xs = if x ∈ xs then [] else [x] := by
  by_cases h : x ∈ xs <;> simp [removeAll,h]

/-- Values can be chosen before or after repeats are erased, if equal values come from equal
items. -/
theorem eraseDups_filterMap [BEq β] [LawfulBEq β] {f : α → Option β}
    (hf : ∀ a b c, f a = some c → f b = some c → a = b) (xs : List α) :
    xs.eraseDups.filterMap f = (xs.filterMap f).eraseDups := by
  induction xs using reverseRecOn with
  | nil => rfl
  | append_singleton xs x ih =>
    rw [eraseDups_append,filterMap_append,filterMap_append,eraseDups_append,ih,removeAll_singleton]
    congr 1
    cases hx : f x with
    | none => by_cases hmem : x ∈ xs <;> simp [removeAll,hmem,hx,eraseDups_cons]
    | some y =>
      have hiff : y ∈ xs.filterMap f ↔ x ∈ xs := by
        rw [mem_filterMap]
        refine ⟨?_,fun hmem => ⟨x,hmem,hx⟩⟩
        rintro ⟨z,hz,hy⟩
        exact hf z x y hy hx ▸ hz
      rw [filterMap_cons_some hx,filterMap_nil,removeAll_singleton]
      simp only [hiff]
      by_cases hmem : x ∈ xs <;> simp [hmem,hx,eraseDups_cons]

theorem eraseDups_filter (p : α → Bool) (xs : List α) :
    (xs.filter p).eraseDups = xs.eraseDups.filter p := by
  have hchosen : ∀ a b c,
      Option.guard (p ·) a = some c → Option.guard (p ·) b = some c → a = b := by
    intro a b c ha hb
    simp only [Option.guard_eq_some_iff] at ha hb
    rw [ha.1,hb.1]
  have hh := eraseDups_filterMap hchosen xs
  simpa [filterMap_eq_filter] using hh.symm

/-- What is left of two lists in a row shows from what is left of each. -/
theorem eraseDups_append_congr {as as' bs bs' : List α}
    (ha : as.eraseDups = as'.eraseDups) (hb : bs.eraseDups = bs'.eraseDups) :
    (as ++ bs).eraseDups = (as' ++ bs').eraseDups := by
  have hmem : ∀ x, x ∈ as ↔ x ∈ as' := by
    intro x
    rw [← mem_eraseDups,ha,mem_eraseDups]
  have hnew : (bs.removeAll as).eraseDups = (bs'.removeAll as').eraseDups := by
    unfold removeAll
    rw [eraseDups_filter,eraseDups_filter,hb]
    refine filter_congr fun x _ => ?_
    simp only [elem_eq_mem,hmem x]
  rw [eraseDups_append,eraseDups_append,ha,hnew]

/-- What is left when repeats are erased comes in the order of its first places. -/
theorem eraseDups_pairwise_idxOf (xs : List α) :
    xs.eraseDups.Pairwise fun a b => xs.idxOf a < xs.idxOf b := by
  induction xs using reverseRecOn with
  | nil => simp
  | append_singleton xs x ih =>
    -- items of the front keep their first places there
    have hfront : xs.eraseDups.Pairwise
        fun a b => (xs ++ [x]).idxOf a < (xs ++ [x]).idxOf b := by
      refine ih.imp_of_mem ?_
      intro a b ha hb hab
      rw [mem_eraseDups] at ha hb
      rwa [idxOf_append_of_mem ha,idxOf_append_of_mem hb]
    rw [eraseDups_append,removeAll_singleton]
    by_cases hx : x ∈ xs
    · simpa [hx] using hfront
    · rw [if_neg hx,eraseDups_cons,filter_nil,eraseDups_nil,pairwise_append]
      refine ⟨hfront,pairwise_singleton _ _,?_⟩
      intro a ha b hb
      obtain rfl := mem_singleton.mp hb
      rw [mem_eraseDups] at ha
      rw [idxOf_append_of_mem ha,idxOf_append_of_notMem hx]
      exact (idxOf_lt_length_of_mem ha).trans_le (Nat.le_add_right _ _)

end Repeats
end List

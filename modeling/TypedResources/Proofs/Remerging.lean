import TypedResources.General.List
import TypedResources.Proofs.FirstOccurrence

/-! Merging what is merged already. All that merging sees of a list of entries is the order of its
names and, for each name, its first declaration and its first comment. A merged batch shows these as
the batch itself does, so neither merging it first nor merging it twice makes a difference. -/
namespace TypedResources

namespace Merge

/-- Merging cannot tell the lists apart: their names come in the same order, and each name has the
same first declaration, comments apart, and the same first comment. -/
structure Alike (xs ys : List Entry) : Prop where
  names : (xs.map (·.name)).eraseDups = (ys.map (·.name)).eraseDups
  first : ∀ name, (xs.find? (·.name = name)).map (·.withComment none) =
    (ys.find? (·.name = name)).map (·.withComment none)
  comment : ∀ name, firstComment? xs name = firstComment? ys name

/-- A name that only one entry has, has the comment of that entry. -/
theorem firstComment?_of_nodup {xs : List Entry} (h : (xs.map (·.name)).Nodup) {e : Entry}
    (he : e ∈ xs) : firstComment? xs e.name = e.comment := by
  obtain ⟨front,back,rfl⟩ := List.append_of_mem he
  rw [List.map_append,List.map_cons,List.nodup_middle,List.nodup_cons,List.mem_append] at h
  have hfront : e.name ∉ front.map (·.name) := fun hmem => h.1 (Or.inl hmem)
  have hback : e.name ∉ back.map (·.name) := fun hmem => h.1 (Or.inr hmem)
  rw [← List.singleton_append,firstComment?_append,firstComment?_append,firstComment?_singleton,
    firstComment?_eq_none hfront,firstComment?_eq_none hback]
  simp

theorem eq_of_withComment_eq {a b : Entry} (hcomment : a.comment = b.comment)
    (h : a.withComment none = b.withComment none) : a = b := by
  cases a
  cases b
  simp_all [Entry.withComment]

/-- Lists that are alike merge to the same entries. -/
theorem entries_eq_of_alike {xs ys : List Entry} (h : Alike xs ys) : entries xs = entries ys := by
  refine eq_of_names_eq (by rw [names_entries,names_entries,h.names]) ?_
  intro a ha b hb hname
  have hcomment : a.comment = b.comment := by
    rw [comment_of_mem_entries xs a ha,comment_of_mem_entries ys b hb,hname,h.comment]
  obtain ⟨d,hd,had⟩ := find?_of_mem ha
  obtain ⟨d',hd',hbd⟩ := find?_of_mem hb
  have hfirst := h.first b.name
  rw [← hname,hd,hname,hd',Option.map_some,Option.map_some] at hfirst
  exact eq_of_withComment_eq hcomment (had.trans ((Option.some.inj hfirst).trans hbd.symm))

theorem Alike.refl (xs : List Entry) : Alike xs xs := ⟨rfl,fun _ => rfl,fun _ => rfl⟩

theorem Alike.append {xs xs' ys ys' : List Entry} (h : Alike xs xs') (h' : Alike ys ys') :
    Alike (xs ++ ys) (xs' ++ ys') where
  names := by
    rw [List.map_append,List.map_append]
    exact List.eraseDups_append_congr h.names h'.names
  first name := by
    rw [List.find?_append,List.find?_append,Option.map_or,Option.map_or,h.first,h'.first]
  comment name := by rw [firstComment?_append,firstComment?_append,h.comment,h'.comment]

/-- A merged batch is like the batch. -/
theorem alike_entries (xs : List Entry) : Alike (entries xs) xs := by
  have hnodup : ((entries xs).map (·.name)).Nodup := nodup_addAll (by simp) xs
  refine ⟨?_,find?_addAll [] xs,?_⟩
  · rw [List.eraseDups_of_nodup hnodup,names_entries]
  · intro name
    by_cases hname : name ∈ (entries xs).map (·.name)
    · obtain ⟨e,he,rfl⟩ := List.mem_map.mp hname
      rw [firstComment?_of_nodup hnodup he,comment_of_mem_entries xs e he]
    · have hname' : name ∉ xs.map (·.name) := by
        rwa [names_entries,List.mem_eraseDups] at hname
      rw [firstComment?_eq_none hname,firstComment?_eq_none hname']

theorem firstComment?_eq_none_iff (xs : List Entry) (name : Option String) :
    firstComment? xs name = none ↔ ∀ e ∈ xs, e.name = name → e.comment = none := by
  simp [firstComment?,List.findSome?_eq_none_iff]

/-- Entries that have been there before add nothing. -/
theorem alike_append_of_subset {xs ys : List Entry} (h : ys ⊆ xs) : Alike (xs ++ ys) xs where
  names := by
    have hnames : (ys.map (·.name)).removeAll (xs.map (·.name)) = [] := by
      rw [List.removeAll,List.filter_eq_nil_iff]
      intro name hname
      have hold : name ∈ xs.map (·.name) := List.map_subset _ h hname
      simpa using hold
    rw [List.map_append,List.eraseDups_append,hnames]
    simp
  first name := by
    rw [List.find?_append]
    cases hx : xs.find? (·.name = name) with
    | some d => rfl
    | none =>
      rw [List.find?_eq_none] at hx
      have hy : ys.find? (·.name = name) = none :=
        List.find?_eq_none.mpr fun e he => hx e (h he)
      rw [hy,Option.none_or]
  comment name := by
    rw [firstComment?_append]
    cases hx : firstComment? xs name with
    | some comment => rfl
    | none =>
      rw [firstComment?_eq_none_iff] at hx
      have hy : firstComment? ys name = none :=
        (firstComment?_eq_none_iff ys name).mpr fun e he => hx e (h he)
      rw [hy,Option.none_or]

theorem foldl_addAll_eq_entries (batches : List (List Entry)) :
    batches.foldl addAll [] = entries batches.flatten := by
  rw [entries,addAll,List.foldl_flatten]
  rfl

/-- A batch can be merged first, before others or after them, and it can be merged once more at any
later place; nor does it matter how the entries are divided into batches. -/
theorem merging_again_changes_nothing (xs ys : List Entry) :
    entries (xs ++ entries ys) = entries (xs ++ ys) ∧
    entries (entries xs ++ ys) = entries (xs ++ ys) ∧
    entries (xs ++ ys ++ xs) = entries (xs ++ ys) ∧
    (∀ batches : List (List Entry), batches.foldl addAll [] = entries batches.flatten) ∧
    ∀ before between after : List (List Entry),
      (before ++ xs :: between ++ xs :: after).foldl addAll [] =
        (before ++ xs :: between ++ after).foldl addAll [] := by
  refine ⟨?_,?_,?_,foldl_addAll_eq_entries,?_⟩
  · exact entries_eq_of_alike ((Alike.refl xs).append (alike_entries ys))
  · exact entries_eq_of_alike ((alike_entries xs).append (Alike.refl ys))
  · exact entries_eq_of_alike (alike_append_of_subset (List.subset_append_left xs ys))
  · intro before between after
    have hold : xs ⊆ (before ++ xs :: between).flatten := by
      intro e he
      exact List.mem_flatten.mpr ⟨xs,by simp,he⟩
    generalize before ++ xs :: between = earlier at hold ⊢
    have hagain := (alike_append_of_subset hold).append (Alike.refl after.flatten)
    rw [foldl_addAll_eq_entries,foldl_addAll_eq_entries,List.flatten_append,List.flatten_append,
      List.flatten_cons,← List.append_assoc]
    exact entries_eq_of_alike hagain

end Merge
end TypedResources

import TypedResources.General.Except
import TypedResources.Proofs.Markup.Characters
import TypedResources.Render.AccessorClass

/-! When a class can be made. Clean entries fail for one reason only: an overlong placeholder
index. -/
namespace TypedResources

/-- A named text entry with a placeholder whose index has more digits than are read. -/
def Entry.IsOverlong (e : Entry) : Prop :=
  e.accessorName?.isSome ∧ e.isText = true ∧
    ∃ value ∈ e.value, ∃ digits ∈ Placeholder.indexes value.toList,
      Number.maxDecimalDigits < digits.length

theorem Entry.isOverlong_congr {x y : Entry} (h : x.withComment none = y.withComment none) :
    x.IsOverlong ↔ y.IsOverlong := by
  obtain ⟨name,value,comment,type⟩ := x
  obtain ⟨name',value',comment',type'⟩ := y
  simp only [Entry.withComment,Entry.mk.injEq,true_and] at h
  obtain ⟨rfl,rfl,rfl⟩ := h
  rfl

theorem Placeholder.item?_digits {cs digits rest : List Char}
    (h : item? cs = some (digits,rest)) : digits.length ≤ cs.length := by
  unfold item? at h
  split at h
  · rename_i tail
    split at h
    · simp at h
    · obtain ⟨r,-,heq⟩ := Option.map_eq_some_iff.mp h
      rw [← (Prod.mk.inj heq).1,List.length_cons]
      have hle := (List.takeWhile_prefix (p := Number.isDecimalDigit) (l := tail)).length_le
      omega
  · simp at h

/-- No index has more digits than the text has characters. -/
theorem Placeholder.length_le_of_mem_indexes {cs digits : List Char} (h : digits ∈ indexes cs) :
    digits.length ≤ cs.length := by
  induction hn : cs.length using Nat.strongRecOn generalizing cs with
  | ind n ih =>
    rw [indexes] at h
    split at h
    · rename_i found rest hitem
      have hlt := item?_length hitem
      rcases List.mem_cons.mp h with rfl | h
      · exact hn ▸ item?_digits hitem
      · have hle := ih rest.length (by omega) h rfl
        omega
    · split at h
      · simp at h
      · rename_i rest _ _
        simp only [List.length_cons] at hn
        have hle := ih rest.length (by omega) h rfl
        omega

theorem Entry.not_isOverlong_of_short {e : Entry}
    (h : ∀ v ∈ e.value, v.toList.length ≤ Number.maxDecimalDigits) : ¬ e.IsOverlong := by
  rintro ⟨-,-,v,hv,digits,hdigits,hlong⟩
  have hle := Placeholder.length_le_of_mem_indexes hdigits
  have hshort := h v hv
  omega

theorem Placeholder.mem_indexes_braced {digits : List Char} (hne : digits ≠ [])
    (h : ∀ c ∈ digits, Number.isDecimalDigit c = true) :
    digits ∈ indexes ('\x7b' :: digits ++ ['\x7d']) := by
  have htake : (digits ++ ['\x7d']).takeWhile Number.isDecimalDigit = digits := by
    rw [List.takeWhile_append_of_pos h]
    simp [Number.isDecimalDigit]
  have hdrop : (digits ++ ['\x7d']).dropWhile Number.isDecimalDigit = ['\x7d'] := by
    rw [List.dropWhile_append_of_pos h]
    simp [Number.isDecimalDigit]
  have hitem : item? ('\x7b' :: digits ++ ['\x7d']) = some (digits,[]) := by
    rw [List.cons_append,item?,htake,hdrop,if_neg hne]
    rfl
  rw [indexes]
  split
  · rename_i found rest hfound
    rw [hitem] at hfound
    obtain ⟨rfl,-⟩ := Prod.mk.inj (Option.some.inj hfound)
    simp
  · rename_i hnone
    rw [hitem] at hnone
    cases hnone

theorem Placeholder.arity_eq_error (value : Option String) (failure : Failure) :
    arity value = .error failure ↔
      failure = .longIndex ∧ ∃ v ∈ value, ∃ digits ∈ indexes v.toList,
        Number.maxDecimalDigits < digits.length := by
  cases value with
  | none => simp [arity]
  | some v =>
    have hany : (indexes v.toList).any (fun digits => Number.maxDecimalDigits < digits.length) =
        true ↔ ∃ digits ∈ indexes v.toList, Number.maxDecimalDigits < digits.length := by
      simp only [List.any_eq_true,decide_eq_true_eq]
    simp only [arity,arityOf,Option.mem_def,Option.some.injEq,exists_eq_left',← hany]
    split
    · rename_i hlong
      simp only [hlong,and_true,Except.error.injEq,eq_comm]
    · rename_i hlong
      simp only [hlong,and_false,reduceCtorEq]

theorem Markup.clean_text {text : String} (h : text.toList.all isChar = true) :
    Clean text.toList := List.all_eq_true.mp h

theorem Summary.clean_paragraphs {e : Entry} (h : e.Clean) :
    ∀ text ∈ paragraphs e, Markup.Clean text.toList := by
  have hname : Markup.Clean (e.name.getD "None").toList := by
    cases hn : e.name with
    | none => exact Markup.clean_text (by decide)
    | some n => exact h.name n hn
  have hvalue : Markup.Clean (e.value.getD "").toList := by
    cases hv : e.value with
    | none => exact Markup.clean_text (by decide)
    | some v => exact h.value v hv
  intro text htext
  simp only [paragraphs,List.mem_append,List.mem_singleton,Option.mem_toList] at htext
  rcases htext with (rfl | hcomment) | hshown
  · simp only [String.toList_append]
    exact ((Markup.clean_text (by decide)).append hname).append (Markup.clean_text (by decide))
  · exact h.comment text (Option.filter_eq_some_iff.mp hcomment).1
  · split at hshown
    · simp at hshown
    · rw [List.mem_singleton] at hshown
      rw [hshown]
      simp only [String.toList_append]
      exact ((Markup.clean_text (by decide)).append hvalue).append (Markup.clean_text (by decide))

/-- A clean entry's doc comment can be written. -/
theorem Summary.render_of_clean {e : Entry} (h : e.Clean) :
    render e = .ok (String.ofList (markLines (element (paragraphs e)))) :=
  if_pos (List.all_eq_true.mpr fun text htext => List.all_eq_true.mpr (clean_paragraphs h text htext))

theorem Accessor.ofEntry_eq_error {e : Entry} (h : e.Clean) {name : String}
    (hname : e.accessorName? = some name) (failure : Failure) :
    ofEntry name e = .error failure ↔ failure = .longIndex ∧ e.IsOverlong := by
  have hsummary := Summary.render_of_clean h
  have hlong : failure = .longIndex ∧ e.IsOverlong ↔
      e.isText = true ∧ Placeholder.arity e.value = .error failure := by
    rw [Placeholder.arity_eq_error]
    simp only [Entry.IsOverlong,hname,Option.isSome_some,true_and]
    constructor
    · rintro ⟨hf,ht,hv⟩
      exact ⟨ht,hf,hv⟩
    · rintro ⟨ht,hf,hv⟩
      exact ⟨hf,ht,hv⟩
  rw [hlong,ofEntry,hsummary]
  cases ht : e.isText with
  | false => simp [pure,Except.pure]
  | true => cases ha : Placeholder.arity e.value <;> simp [bind,Except.bind,pure,Except.pure]

namespace AccessorClass

theorem mem_sortByName_named {entries : List Entry} (x : String × Entry) :
    x ∈ sortByName (named entries) ↔ x.2 ∈ entries ∧ x.2.accessorName? = some x.1 := by
  rw [sortByName,List.mem_mergeSort,named,List.mem_filterMap]
  constructor
  · rintro ⟨e,he,hx⟩
    obtain ⟨n,hn,rfl⟩ := Option.map_eq_some_iff.mp hx
    exact ⟨he,hn⟩
  · rintro ⟨he,hn⟩
    exact ⟨x.2,he,by rw [hn]; rfl⟩

/-- The class of clean entries fails to be made only for an overlong placeholder index. -/
theorem ofEntries_eq_error {entries : List Entry} (h : ∀ e ∈ entries, e.Clean)
    (scope : Option String) (style : Plumbing.Style) (failure : Failure) :
    ofEntries scope style entries = .error failure ↔
      failure = .longIndex ∧ ∃ e ∈ entries, e.IsOverlong := by
  have hmap : ofEntries scope style entries = .error failure ↔
      (sortByName (named entries)).mapM (fun x => Accessor.ofEntry x.1 x.2) = .error failure := by
    rw [ofEntries]
    cases hm : (sortByName (named entries)).mapM fun x => Accessor.ofEntry x.1 x.2 with
    | error e => simp [bind,Except.bind]
    | ok accessors => simp [bind,Except.bind,pure,Except.pure]
  have hentry : ∀ x ∈ sortByName (named entries), ∀ failure',
      Accessor.ofEntry x.1 x.2 = .error failure' ↔ failure' = .longIndex ∧ x.2.IsOverlong := by
    intro x hx failure'
    obtain ⟨he,hn⟩ := (mem_sortByName_named x).mp hx
    exact Accessor.ofEntry_eq_error (h x.2 he) hn failure'
  rw [hmap]
  constructor
  · intro herror
    obtain ⟨x,hx,hfail⟩ := Except.exists_mapM_error herror
    obtain ⟨hf,hlong⟩ := (hentry x hx failure).mp hfail
    exact ⟨hf,x.2,((mem_sortByName_named x).mp hx).1,hlong⟩
  · rintro ⟨rfl,e,he,hlong⟩
    obtain ⟨n,hn⟩ := Option.isSome_iff_exists.mp hlong.1
    have hx : (n,e) ∈ sortByName (named entries) := (mem_sortByName_named (n,e)).mpr ⟨he,hn⟩
    obtain ⟨failure,herror⟩ := Except.mapM_error_of_mem (fun x => Accessor.ofEntry x.1 x.2) hx
      ((hentry _ hx _).mpr ⟨rfl,hlong⟩)
    obtain ⟨x,hx',hfail⟩ := Except.exists_mapM_error herror
    rw [herror,((hentry x hx' failure).mp hfail).1]

/-- Clean entries with short values give a class. -/
theorem ofEntries_isOk {entries : List Entry} (h : ∀ e ∈ entries, e.Clean)
    (hshort : ∀ e ∈ entries, ∀ v ∈ e.value, v.toList.length ≤ Number.maxDecimalDigits)
    (scope : Option String) (style : Plumbing.Style) : ∃ c, ofEntries scope style entries = .ok c := by
  cases hc : ofEntries scope style entries with
  | ok c => exact ⟨c,rfl⟩
  | error failure =>
    obtain ⟨-,e,he,hlong⟩ := (ofEntries_eq_error h scope style failure).mp hc
    exact absurd hlong (Entry.not_isOverlong_of_short (hshort e he))

end AccessorClass

end TypedResources

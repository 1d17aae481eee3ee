import Mathlib.Data.List.Nodup
import TypedResources.Resource.Merge

/-! What merging keeps: one entry for each name, with the value and the type of the first entry that
has the name. -/
namespace TypedResources
namespace Merge

@[simp]
theorem fillComment_name (e : Entry) (comment : Option String) :
    (fillComment e comment).name = e.name := rfl

@[simp]
theorem withComment_fillComment (e : Entry) (comment : Option String) :
    (fillComment e comment).withComment none = e.withComment none := rfl

theorem name_of_find? {es : List Entry} {name : Option String} {e : Entry}
    (h : es.find? (·.name = name) = some e) : e.name = name := by
  have hname := List.find?_some h
  exact of_decide_eq_true hname

/-- Adding an entry finds under each name what appending it finds, comments apart. -/
theorem find?_add (merged : List Entry) (e : Entry) (name : Option String) :
    ((add merged e).find? (·.name = name)).map (·.withComment none) =
      ((merged ++ [e]).find? (·.name = name)).map (·.withComment none) := by
  unfold add
  split
  · rename_i hany
    have hold : (merged.map fun x => if x.name = e.name then fillComment x e.comment else x).find?
        (·.name = name) = (merged.find? (·.name = name)).map fun x =>
          if x.name = e.name then fillComment x e.comment else x := by
      rw [List.find?_map]
      congr 2
      funext x
      by_cases hx : x.name = e.name <;> simp [hx]
    have hnew : (merged ++ [e]).find? (·.name = name) = merged.find? (·.name = name) := by
      rw [List.find?_append]
      by_cases he : e.name = name
      · obtain ⟨x,hx,hname⟩ := List.any_eq_true.mp hany
        have hsome : (merged.find? (·.name = name)).isSome := by
          rw [List.find?_isSome]
          exact ⟨x,hx,by simpa [he] using hname⟩
        obtain ⟨y,hy⟩ := Option.isSome_iff_exists.mp hsome
        rw [hy,Option.some_or]
      · simp [he]
    rw [hold,hnew,Option.map_map]
    congr 1
    funext x
    by_cases hx : x.name = e.name <;> simp [hx]
  · rfl

theorem find?_addAll (merged entries : List Entry) (name : Option String) :
    ((addAll merged entries).find? (·.name = name)).map (·.withComment none) =
      ((merged ++ entries).find? (·.name = name)).map (·.withComment none) := by
  induction entries generalizing merged with
  | nil => simp [addAll]
  | cons e rest ih =>
    have hadd := find?_add merged e name
    rw [show addAll merged (e :: rest) = addAll (add merged e) rest from rfl,ih,List.find?_append,
      show merged ++ e :: rest = (merged ++ [e]) ++ rest by simp,List.find?_append,
      Option.map_or,Option.map_or,hadd]

theorem nodup_add {merged : List Entry} (h : (merged.map (·.name)).Nodup) (e : Entry) :
    ((add merged e).map (·.name)).Nodup := by
  unfold add
  split
  · have hnames : (merged.map fun x => if x.name = e.name then fillComment x e.comment else x).map
        (·.name) = merged.map (·.name) := by
      rw [List.map_map]
      congr 1
      funext x
      by_cases hx : x.name = e.name <;> simp [hx]
    rwa [hnames]
  · rename_i hany
    rw [List.map_append,List.nodup_append]
    refine ⟨h,by simp,?_⟩
    intro name hname name' hname' heq
    simp only [List.map_cons,List.map_nil,List.mem_singleton] at hname'
    obtain ⟨x,hx,rfl⟩ := List.mem_map.mp hname
    exact hany (List.any_eq_true.mpr ⟨x,hx,by simp [heq,hname']⟩)

theorem kept_of_withComment_eq {x y : Entry} (h : x.withComment none = y.withComment none) :
    x.value = y.value ∧ x.type = y.type := by
  have hvalue : (x.withComment none).value = (y.withComment none).value := by rw [h]
  have htype : (x.withComment none).type = (y.withComment none).type := by rw [h]
  exact ⟨hvalue,htype⟩

/-- Merged entries have different names. -/
theorem nodup_addAll {merged : List Entry} (h : (merged.map (·.name)).Nodup)
    (entries : List Entry) : ((addAll merged entries).map (·.name)).Nodup := by
  induction entries generalizing merged with
  | nil => exact h
  | cons e rest ih => exact ih (nodup_add h e)

/-- A name that a batch declares has one merged entry, with the value and type of its first
declaration. -/
theorem exists_of_find?_eq_some {batch : List Entry} {name : Option String} {d : Entry}
    (h : batch.find? (·.name = name) = some d) :
    ∃ e ∈ entries batch, (∀ x ∈ entries batch, x.name = name ↔ x = e) ∧
      e.withComment none = d.withComment none := by
  have hfind := find?_addAll [] batch name
  rw [List.nil_append,h] at hfind
  obtain ⟨e,he,hcore⟩ := Option.map_eq_some_iff.mp hfind
  have hmem := List.mem_of_find?_eq_some he
  have hname := name_of_find? he
  refine ⟨e,hmem,?_,hcore⟩
  intro x hx
  constructor
  · intro hxname
    exact List.inj_on_of_nodup_map (nodup_addAll (by simp) batch) hx hmem (hxname.trans hname.symm)
  · rintro rfl
    exact hname

/-- Every merged entry goes back to the first declaration of its name. -/
theorem find?_of_mem {batch : List Entry} {x : Entry} (hx : x ∈ entries batch) :
    ∃ d, batch.find? (·.name = x.name) = some d ∧ x.withComment none = d.withComment none := by
  have hfind := find?_addAll [] batch x.name
  have hsome : ((entries batch).find? (·.name = x.name)).isSome :=
    List.find?_isSome.mpr ⟨x,hx,by simp⟩
  rw [List.nil_append] at hfind
  obtain ⟨y,hy⟩ := Option.isSome_iff_exists.mp hsome
  rw [entries] at hy
  rw [hy] at hfind
  obtain ⟨d,hd,hcore⟩ := Option.map_eq_some_iff.mp hfind.symm
  obtain rfl : y = x := List.inj_on_of_nodup_map (nodup_addAll (by simp) batch)
    (List.mem_of_find?_eq_some hy) hx (name_of_find? hy)
  exact ⟨d,hd,hcore.symm⟩

end Merge
end TypedResources

import TypedResources.General.List
import TypedResources.Proofs.Completeness
import TypedResources.Proofs.Merging

/-! What merging batches of entries comes to: each name stands where it first occurs, with the value
and type given there and with the first comment that is given anywhere. These laws leave no choice,
so they define the merged list. -/
namespace TypedResources

namespace Merge

def firstComment? (declared : List Entry) (name : Option String) : Option String :=
  (declared.filter (·.name = name)).findSome? (·.comment)

def firstPlace (declared : List Entry) (name : Option String) : Nat :=
  (declared.map (·.name)).idxOf name

structure Merges (declared merged : List Entry) : Prop where
  distinct : (merged.map (·.name)).Nodup
  complete : ∀ name, name ∈ merged.map (·.name) ↔ name ∈ declared.map (·.name)
  ordered : merged.Pairwise fun a b => firstPlace declared a.name < firstPlace declared b.name
  first : ∀ e ∈ merged, ∃ d, declared.find? (·.name = e.name) = some d ∧
    e.value = d.value ∧ e.type = d.type
  comment : ∀ e ∈ merged, e.comment = firstComment? declared e.name

theorem firstComment?_append (xs ys : List Entry) (name : Option String) :
    firstComment? (xs ++ ys) name = (firstComment? xs name).or (firstComment? ys name) := by
  rw [firstComment?,List.filter_append,List.findSome?_append]
  rfl

theorem firstComment?_singleton (e : Entry) (name : Option String) :
    firstComment? [e] name = if e.name = name then e.comment else none := by
  by_cases h : e.name = name <;> simp [firstComment?,h]

theorem firstComment?_eq_none {declared : List Entry} {name : Option String}
    (h : name ∉ declared.map (·.name)) : firstComment? declared name = none := by
  have hfilter : declared.filter (·.name = name) = [] := by
    rw [List.filter_eq_nil_iff]
    intro d hd
    simpa using fun he => h (List.mem_map.mpr ⟨d,hd,he⟩)
  rw [firstComment?,hfilter,List.findSome?_nil]

theorem entries_append_singleton (declared : List Entry) (e : Entry) :
    entries (declared ++ [e]) = add (entries declared) e := by
  simp [entries,addAll]

/-- An added entry brings its comment to its own name only, and only if there is none yet. -/
theorem comment_of_mem_add {declared merged : List Entry} {e : Entry}
    (hnames : e.name ∈ declared.map (·.name) → e.name ∈ merged.map (·.name))
    (hcomment : ∀ x ∈ merged, x.comment = firstComment? declared x.name) :
    ∀ x ∈ add merged e, x.comment = firstComment? (declared ++ [e]) x.name := by
  intro x hx
  rw [firstComment?_append,firstComment?_singleton]
  unfold add at hx
  split at hx
  · obtain ⟨y,hy,rfl⟩ := List.mem_map.mp hx
    by_cases hname : y.name = e.name
    · simp [hname,fillComment,Entry.withComment,hcomment y hy]
    · simp [hname,Ne.symm hname,hcomment y hy]
  · rename_i hnew
    have hfresh : e.name ∉ merged.map (·.name) := by
      intro hmem
      obtain ⟨y,hy,hname⟩ := List.mem_map.mp hmem
      exact hnew (List.any_eq_true.mpr ⟨y,hy,by simp [hname]⟩)
    rcases List.mem_append.mp hx with hold | hlast
    · have hother : e.name ≠ x.name := fun he => hfresh (he ▸ List.mem_map_of_mem hold)
      rw [if_neg hother,Option.or_none]
      exact hcomment x hold
    · obtain rfl := List.mem_singleton.mp hlast
      simp [firstComment?_eq_none fun hmem => hfresh (hnames hmem)]

theorem comment_of_mem_entries (declared : List Entry) :
    ∀ x ∈ entries declared, x.comment = firstComment? declared x.name := by
  induction declared using List.reverseRecOn with
  | nil => simp [entries,addAll]
  | append_singleton declared e ih =>
    rw [entries_append_singleton]
    refine comment_of_mem_add ?_ ih
    rw [names_entries,List.mem_eraseDups]
    exact id

theorem merges_entries (declared : List Entry) : Merges declared (entries declared) where
  distinct := nodup_addAll (by simp) declared
  complete name := by rw [names_entries,List.mem_eraseDups]
  ordered := by
    have hnames := List.eraseDups_pairwise_idxOf (declared.map (·.name))
    rwa [← names_entries,List.pairwise_map] at hnames
  first e he := by
    obtain ⟨d,hd,hsame⟩ := find?_of_mem he
    exact ⟨d,hd,kept_of_withComment_eq hsame⟩
  comment := comment_of_mem_entries declared

/-- Entries in the same order of names are the same when their names tell them apart. -/
theorem eq_of_names_eq {xs ys : List Entry} (hnames : xs.map (·.name) = ys.map (·.name))
    (h : ∀ a ∈ xs, ∀ b ∈ ys, a.name = b.name → a = b) : xs = ys := by
  have hlength : xs.length = ys.length := by simpa using congrArg List.length hnames
  refine List.ext_getElem hlength fun i hi hi' => ?_
  refine h _ (List.getElem_mem hi) _ (List.getElem_mem hi') ?_
  have hget := List.getElem_of_eq hnames (show i < (xs.map (·.name)).length by simpa)
  simpa using hget

section Unique

variable {declared merged other : List Entry} (h : Merges declared merged)
  (h' : Merges declared other)
include h h'

theorem Merges.names_eq : merged.map (·.name) = other.map (·.name) := by
  have hperm : (merged.map (·.name)).Perm (other.map (·.name)) :=
    (List.perm_ext_iff_of_nodup h.distinct h'.distinct).mpr fun name =>
      (h.complete name).trans (h'.complete name).symm
  have hrising : ∀ {es : List Entry}, Merges declared es →
      (es.map (·.name)).Pairwise fun a b => firstPlace declared a < firstPlace declared b :=
    fun hes => List.pairwise_map.mpr hes.ordered
  refine hperm.eq_of_pairwise ?_ (hrising h) (hrising h')
  intro a b _ _ hab hba
  exact absurd hab hba.asymm

theorem Merges.entry_eq {a b : Entry} (ha : a ∈ merged) (hb : b ∈ other)
    (hname : a.name = b.name) : a = b := by
  obtain ⟨d,hd,hvalue,htype⟩ := h.first a ha
  obtain ⟨d',hd',hvalue',htype'⟩ := h'.first b hb
  have hcomment : a.comment = b.comment := by rw [h.comment a ha,h'.comment b hb,hname]
  rw [hname,hd'] at hd
  obtain rfl := Option.some.inj hd
  cases a
  cases b
  simp_all

/-- The laws of merging leave no choice. -/
theorem Merges.unique : merged = other :=
  eq_of_names_eq (h.names_eq h') fun _ ha _ hb => h.entry_eq h' ha hb

end Unique

/-- Merging batch after batch gives the one list that holds each name of the batches where it first
occurs, with the value and type given there and the first comment given for it. -/
theorem foldl_addAll_eq_iff (batches : List (List Entry)) (merged : List Entry) :
    batches.foldl addAll [] = merged ↔ Merges batches.flatten merged := by
  have hentries : batches.foldl addAll [] = entries batches.flatten := by
    rw [entries,addAll,List.foldl_flatten]
    rfl
  rw [hentries]
  constructor
  · rintro rfl
    exact merges_entries _
  · exact (merges_entries _).unique

/-- A later comment is taken up, a later value is not. -/
example : [[⟨some "x",some "1",none,none⟩,⟨none,none,none,none⟩],
      [⟨some "x",some "2",some "c",none⟩,⟨some "x",none,some "d",none⟩]].foldl addAll [] =
    [⟨some "x",some "1",some "c",none⟩,⟨none,none,none,none⟩] := by
  decide

end Merge
end TypedResources

import Mathlib.Data.List.Basic
import TypedResources.Config.Merge

/-! Mappings laid over one another. Under each key the upper mapping counts, and where both hold
mappings these are laid over one another in turn; keys stay where they first came. An empty layer
changes nothing, nor does a layer that is there already. Layers can be combined in any grouping,
unless two mappings have something else between them. -/
namespace TypedResources

namespace Calendar.Moment

/-- Whether the clock is placed, and what it shows at universal time. -/
def instant (m : Moment) : Bool × Int := (m.offset.isSome,m.clock - m.offset.getD 0 * 60000000)

theorem same_iff (a b : Moment) : a.same b = true ↔ a.instant = b.instant := by
  unfold same instant
  cases a.offset <;> cases b.offset <;> grind

end Calendar.Moment

namespace Config

namespace Scalar

/-- What tells keys apart: the values of numbers, instants, or else the scalars themselves. -/
def identity : Scalar → Int ⊕ (Bool × Int) ⊕ Scalar
  | moment m => .inr (.inl m.instant)
  | a => match a.units? with
    | some n => .inl n
    | none => .inr (.inr a)

theorem identity_eq_number_iff (a : Scalar) (n : Int) :
    a.identity = .inl n ↔ a.units? = some n := by
  unfold identity
  split
  · simp [units?]
  · split <;> simp_all

/-- Being the same key is an equivalence: it is having the same identity. -/
theorem same_iff (a b : Scalar) : a.same b = true ↔ a.identity = b.identity := by
  unfold same
  split
  · simp [identity,units?]
  · simp [identity,Calendar.Moment.same_iff]
  · rename_i htext hmoment
    cases ha : a.units? with
    | some n =>
      have hb := identity_eq_number_iff b n
      simpa [(identity_eq_number_iff a n).mpr ha,eq_comm] using hb.symm
    | none =>
      cases hb : b.units? with
      | some n =>
        have hab : a ≠ b := fun h => by simp [← h,ha] at hb
        simpa [(identity_eq_number_iff b n).mpr hb,identity_eq_number_iff,ha] using hab
      | none => cases a <;> cases b <;> simp_all [identity]

theorem same_comm (a b : Scalar) : a.same b = b.same a :=
  Bool.eq_iff_iff.mpr ((same_iff a b).trans (eq_comm.trans (same_iff b a).symm))

theorem same_congr {a b : Scalar} (h : a.same b = true) (c : Scalar) : c.same a = c.same b := by
  rw [Bool.eq_iff_iff,same_iff,same_iff,(same_iff a b).mp h]

end Scalar

namespace Entries

def keys (entries : Entries) : List Scalar := entries.map (·.1)

def Distinct (entries : Entries) : Prop := entries.keys.Pairwise fun a b => a.same b = false

theorem find?_cons (key : Scalar) (entry : Scalar × Value) (rest : Entries) :
    find? key (entry :: rest) = if entry.1.same key then some entry.2 else find? key rest := rfl

theorem find?_congr {a b : Scalar} (h : a.same b = true) (entries : Entries) :
    entries.find? a = entries.find? b := by
  induction entries with
  | nil => rfl
  | cons entry rest ih => rw [find?_cons,find?_cons,Scalar.same_congr h,ih]

theorem find?_eq_none_iff (key : Scalar) (entries : Entries) :
    entries.find? key = none ↔ ∀ k ∈ entries.keys, k.same key = false := by
  induction entries with
  | nil => simp [find?,keys]
  | cons entry rest ih => by_cases h : entry.1.same key <;> simp_all [find?_cons,keys]

theorem isSome_find? {key : Scalar} {entries : Entries} (h : key ∈ entries.keys) :
    (entries.find? key).isSome := by
  rw [Option.isSome_iff_ne_none]
  intro hnone
  have hdiffers := (find?_eq_none_iff key entries).mp hnone key h
  rw [Scalar.same_self] at hdiffers
  cases hdiffers

theorem mem_of_find? {key : Scalar} {value : Value} {entries : Entries}
    (h : entries.find? key = some value) : ∃ k, (k,value) ∈ entries := by
  induction entries with
  | nil => cases h
  | cons entry rest ih =>
    rw [find?_cons] at h
    split at h
    · exact ⟨entry.1,Option.some.inj h ▸ List.mem_cons_self⟩
    · obtain ⟨k,hk⟩ := ih h
      exact ⟨k,List.mem_cons_of_mem _ hk⟩

theorem distinct_cons (k : Scalar) (v : Value) (rest : Entries) :
    Distinct ((k,v) :: rest) ↔ rest.find? k = none ∧ rest.Distinct := by
  simp only [find?_eq_none_iff,Scalar.same_comm _ k]
  exact List.pairwise_cons

/-- A mapping is told by the order of its keys and by the value under each key. -/
theorem eq_of_find? {a b : Entries} (hkeys : a.keys = b.keys) (hdistinct : a.Distinct)
    (hfind : ∀ key, a.find? key = b.find? key) : a = b := by
  induction a generalizing b with
  | nil =>
    cases b with
    | nil => rfl
    | cons entry rest => cases hkeys
  | cons entry rest ih =>
    obtain ⟨k,v⟩ := entry
    cases b with
    | nil => cases hkeys
    | cons entry' rest' =>
      obtain ⟨k',v'⟩ := entry'
      obtain ⟨rfl,hrest⟩ := List.cons.inj hkeys
      have hdistinct' : Distinct ((k,v') :: rest') := by
        rw [Distinct,← hkeys]
        exact hdistinct
      rw [distinct_cons] at hdistinct hdistinct'
      have hvalue := hfind k
      rw [find?_cons,find?_cons,if_pos k.same_self,if_pos k.same_self] at hvalue
      obtain rfl : v = v' := Option.some.inj hvalue
      rw [ih hrest hdistinct.2 fun key => ?_]
      cases hsame : k.same key with
      | true => rw [← find?_congr hsame,← find?_congr hsame,hdistinct.1,hdistinct'.1]
      | false => simpa [find?_cons,hsame] using hfind key

theorem find?_assign (key : Scalar) (value : Value) (entries : Entries) (k : Scalar) :
    (entries.assign key value).find? k = if key.same k then some value else entries.find? k := by
  induction entries with
  | nil => rfl
  | cons entry rest ih =>
    rw [assign]
    split
    · rename_i h
      rw [find?_cons,find?_cons,Scalar.same_comm entry.1 k,Scalar.same_congr h,Scalar.same_comm k]
      split <;> rfl
    · rename_i h
      rw [find?_cons,find?_cons,ih]
      split
      · rename_i hk
        rw [if_neg]
        rwa [← Scalar.same_congr hk,Scalar.same_comm key]
      · rfl

theorem keys_assign (key : Scalar) (value : Value) (entries : Entries) :
    (entries.assign key value).keys =
      if (entries.find? key).isSome then entries.keys else entries.keys ++ [key] := by
  induction entries with
  | nil => rfl
  | cons entry rest ih =>
    by_cases h : entry.1.same key <;> simp_all [assign,find?_cons,keys]
    split <;> rfl

end Entries

/-- What stands under a key when one layer is laid over another. -/
def overlay (lower upper : Option Value) : Option Value :=
  match upper with
  | none => lower
  | some value => some (mergeValue lower value)

theorem overlay_maps (lower upper : Entries) :
    overlay (some (.map lower)) (some (.map upper)) = some (.map (merge lower upper)) := by
  rw [overlay,mergeValue]

theorem overlay_of_not_map (lower : Option Value) {value : Value}
    (h : ∀ upper, value ≠ .map upper) : overlay lower (some value) = some value := by
  cases value with
  | map upper => exact absurd rfl (h upper)
  | _ => rfl

theorem overlay_on_not_map {lower : Option Value} (h : ∀ entries, lower ≠ some (.map entries))
    (value : Value) : overlay lower (some value) = some value := by
  refine congrArg some ?_
  unfold mergeValue
  split
  · split
    · rename_i entries
      exact absurd rfl (h entries)
    · rfl
  · rfl

theorem isNone_overlay (lower upper : Option Value) :
    (overlay lower upper).isNone = (lower.isNone && upper.isNone) := by
  cases upper <;> simp [overlay]

theorem overlay_self {x : Option Value}
    (h : ∀ inner, x = some (.map inner) → merge inner inner = inner) : overlay x x = x := by
  cases x with
  | none => rfl
  | some value =>
    by_cases hmap : ∃ inner, value = .map inner
    · obtain ⟨inner,rfl⟩ := hmap
      rw [overlay_maps,h inner rfl]
    · exact overlay_of_not_map _ fun inner hinner => hmap ⟨inner,hinner⟩

theorem overlay_overlay_self {x y : Option Value}
    (hself : ∀ upper, y = some (.map upper) → merge upper upper = upper)
    (h : ∀ lower upper, x = some (.map lower) → y = some (.map upper) →
      merge (merge lower upper) upper = merge lower upper) :
    overlay (overlay x y) y = overlay x y := by
  cases y with
  | none => rfl
  | some value =>
    by_cases hx : ∃ lower, x = some (.map lower)
    · obtain ⟨lower,rfl⟩ := hx
      by_cases hmap : ∃ upper, value = .map upper
      · obtain ⟨upper,rfl⟩ := hmap
        rw [overlay_maps,overlay_maps,h lower upper rfl rfl]
      · have hupper := fun old => overlay_of_not_map old fun upper hu => hmap ⟨upper,hu⟩
        rw [hupper,hupper]
    · rw [overlay_on_not_map fun lower hl => hx ⟨lower,hl⟩,overlay_self hself]

/-- Three layers at one key. Only between two mappings does it matter what is combined first. -/
theorem overlay_assoc {x y z : Option Value}
    (hbetween : ∀ lower upper, x = some (.map lower) → z = some (.map upper) →
      ∀ value, y = some value → ∃ middle, value = .map middle)
    (h : ∀ lower middle upper, x = some (.map lower) → y = some (.map middle) →
      z = some (.map upper) → merge (merge lower middle) upper = merge lower (merge middle upper)) :
    overlay (overlay x y) z = overlay x (overlay y z) := by
  cases z with
  | none => rfl
  | some value =>
    by_cases hz : ∃ upper, value = .map upper
    · obtain ⟨upper,rfl⟩ := hz
      cases y with
      | none => rfl
      | some between =>
        by_cases hy : ∃ middle, between = .map middle
        · obtain ⟨middle,rfl⟩ := hy
          by_cases hx : ∃ lower, x = some (.map lower)
          · obtain ⟨lower,rfl⟩ := hx
            rw [overlay_maps,overlay_maps,overlay_maps,overlay_maps,h lower middle upper rfl rfl rfl]
          · have hlower := overlay_on_not_map fun lower hl => hx ⟨lower,hl⟩
            rw [hlower,overlay_maps,hlower]
        · have hx : ∀ lower, x ≠ some (.map lower) := fun lower hl =>
            hy (hbetween lower upper hl rfl between rfl)
          have hnot : ∀ middle, between ≠ .map middle := fun middle hm => hy ⟨middle,hm⟩
          rw [overlay_of_not_map x hnot,overlay_on_not_map (by simpa using hnot),
            overlay_on_not_map hx]
    · have hupper := fun old => overlay_of_not_map old fun upper hu => hz ⟨upper,hu⟩
      rw [hupper,hupper,hupper]

theorem merge_cons (base : Entries) (entry : Scalar × Value) (rest : Entries) :
    merge base (entry :: rest) =
      merge (base.assign entry.1 (mergeValue (base.find? entry.1) entry.2)) rest := by
  rw [merge]

theorem find?_merge (base : Entries) {upper : Entries} (h : upper.Distinct) (key : Scalar) :
    (merge base upper).find? key = overlay (base.find? key) (upper.find? key) := by
  induction upper generalizing base with
  | nil => rw [merge_nil]; rfl
  | cons entry rest ih =>
    obtain ⟨hnew,hrest⟩ := (Entries.distinct_cons entry.1 entry.2 rest).mp h
    rw [merge_cons,ih _ hrest,Entries.find?_assign,Entries.find?_cons]
    split
    · rename_i hsame
      rw [← Entries.find?_congr hsame,← Entries.find?_congr hsame,hnew]
      rfl
    · rfl

theorem keys_merge (base : Entries) {upper : Entries} (h : upper.Distinct) :
    (merge base upper).keys =
      base.keys ++ upper.keys.filter fun key => (base.find? key).isNone := by
  induction upper generalizing base with
  | nil => rw [merge_nil]; simp [Entries.keys]
  | cons entry rest ih =>
    obtain ⟨hnew,hrest⟩ := (Entries.distinct_cons entry.1 entry.2 rest).mp h
    have hothers : (Entries.keys rest).filter (fun key =>
        ((base.assign entry.1 (mergeValue (base.find? entry.1) entry.2)).find? key).isNone) =
        (Entries.keys rest).filter fun key => (base.find? key).isNone := by
      refine List.filter_congr fun key hkey => ?_
      rw [Entries.find?_assign,if_neg]
      rw [Scalar.same_comm,(Entries.find?_eq_none_iff _ _).mp hnew key hkey]
      exact Bool.false_ne_true
    rw [merge_cons,ih _ hrest,hothers,Entries.keys_assign]
    cases hold : base.find? entry.1 <;> simp [Entries.keys,hold]

theorem distinct_merge {base upper : Entries} (hbase : base.Distinct) (h : upper.Distinct) :
    (merge base upper).Distinct := by
  rw [Entries.Distinct,keys_merge base h,List.pairwise_append]
  refine ⟨hbase,h.filter _,fun a ha b hb => ?_⟩
  have hnew : base.find? b = none := by simpa using (List.mem_filter.mp hb).2
  exact (Entries.find?_eq_none_iff b base).mp hnew a ha

/-- No two keys are the same, neither here nor in the mappings inside. -/
inductive Entries.Proper : Entries → Prop
  | intro {entries : Entries} (hdistinct : entries.Distinct)
      (hinner : ∀ key inner, (key,Value.map inner) ∈ entries → Entries.Proper inner) :
      Entries.Proper entries

theorem Entries.Proper.distinct {entries : Entries} (h : entries.Proper) : entries.Distinct := by
  cases h
  assumption

theorem Entries.Proper.inner {entries inner : Entries} {key : Scalar} (h : entries.Proper)
    (hfind : Entries.find? key entries = some (.map inner)) : Entries.Proper inner := by
  obtain ⟨k,hk⟩ := mem_of_find? hfind
  cases h with
  | intro _ hinner => exact hinner k inner hk

theorem merge_nil_left {a : Entries} (h : a.Distinct) : merge [] a = a := by
  refine Entries.eq_of_find? ?_ (distinct_merge List.Pairwise.nil h) fun key => ?_
  · rw [keys_merge [] h]
    simp [Entries.keys,Entries.find?]
  · rw [find?_merge [] h]
    cases a.find? key with
    | none => rfl
    | some value => exact overlay_on_not_map (by rintro _ ⟨⟩) value

theorem filter_keys_eq_nil {a b : Entries} (h : ∀ key ∈ b.keys, (a.find? key).isSome) :
    b.keys.filter (fun key => (a.find? key).isNone) = [] := by
  rw [List.filter_eq_nil_iff]
  intro key hkey
  simpa using Option.isSome_iff_ne_none.mp (h key hkey)

theorem merge_self {a : Entries} (h : a.Proper) : merge a a = a := by
  induction h with
  | @intro a hdistinct hinner ih =>
    refine Entries.eq_of_find? ?_ (distinct_merge hdistinct hdistinct) fun key => ?_
    · rw [keys_merge a hdistinct,filter_keys_eq_nil fun _ => Entries.isSome_find?,List.append_nil]
    · rw [find?_merge a hdistinct]
      refine overlay_self fun inner hfind => ?_
      obtain ⟨k,hk⟩ := Entries.mem_of_find? hfind
      exact ih k inner hk

theorem merge_merge_self {a b : Entries} (ha : a.Proper) (hb : b.Proper) :
    merge (merge a b) b = merge a b := by
  induction hb generalizing a with
  | @intro b hdistinct hinner ih =>
    have hb : b.Proper := .intro hdistinct hinner
    refine Entries.eq_of_find? ?_
      (distinct_merge (distinct_merge ha.distinct hdistinct) hdistinct) fun key => ?_
    · rw [keys_merge _ hdistinct,filter_keys_eq_nil fun key hkey => ?_,List.append_nil]
      obtain ⟨value,hvalue⟩ := Option.isSome_iff_exists.mp (Entries.isSome_find? hkey)
      rw [find?_merge a hdistinct,hvalue]
      rfl
    · rw [find?_merge _ hdistinct,find?_merge a hdistinct]
      refine overlay_overlay_self (fun upper hupper => merge_self (hb.inner hupper)) ?_
      intro lower upper hlower hupper
      obtain ⟨k,hk⟩ := Entries.mem_of_find? hupper
      exact ih k upper hk (ha.inner hlower)

def Value.at? : List Scalar → Value → Option Value
  | [], value => some value
  | key :: path, .map entries => (Entries.find? key entries).bind (at? path)
  | _ :: _, _ => none

theorem Value.at?_cons_eq_some_iff (key : Scalar) (path : List Scalar) (entries : Entries)
    (end' : Value) : at? (key :: path) (.map entries) = some end' ↔
      ∃ value, entries.find? key = some value ∧ value.at? path = some end' := by
  rw [at?,Option.bind_eq_some_iff]

/-- At the end of a path of keys the lowest and the uppermost layer hold mappings, and the layer
between them holds something else. -/
def SeveredAt (a b c : Entries) (path : List Scalar) (lower upper : Entries) : Prop :=
  (Value.map a).at? path = some (.map lower) ∧ (Value.map c).at? path = some (.map upper) ∧
    ∃ between, (Value.map b).at? path = some between ∧ ∀ middle, between ≠ .map middle

/-- Two mappings have something else between them. -/
def Severed (a b c : Entries) : Prop := ∃ path lower upper, SeveredAt a b c path lower upper

theorem Severed.of_find? {a b c lower upper : Entries} {between : Value} {key : Scalar}
    (ha : a.find? key = some (.map lower)) (hb : b.find? key = some between)
    (hc : c.find? key = some (.map upper)) (hother : ∀ middle, between ≠ .map middle) :
    Severed a b c := by
  refine ⟨[key],lower,upper,?_,?_,between,?_,hother⟩
  · exact (Value.at?_cons_eq_some_iff key [] a _).mpr ⟨_,ha,rfl⟩
  · exact (Value.at?_cons_eq_some_iff key [] c _).mpr ⟨_,hc,rfl⟩
  · exact (Value.at?_cons_eq_some_iff key [] b _).mpr ⟨_,hb,rfl⟩

theorem Severed.of_inner {a b c lower middle upper : Entries} {key : Scalar}
    (ha : a.find? key = some (.map lower)) (hb : b.find? key = some (.map middle))
    (hc : c.find? key = some (.map upper)) (h : Severed lower middle upper) : Severed a b c := by
  obtain ⟨path,l,u,hl,hu,between,hbetween,hother⟩ := h
  refine ⟨key :: path,l,u,?_,?_,between,?_,hother⟩
  · exact (Value.at?_cons_eq_some_iff key path a _).mpr ⟨_,ha,hl⟩
  · exact (Value.at?_cons_eq_some_iff key path c _).mpr ⟨_,hc,hu⟩
  · exact (Value.at?_cons_eq_some_iff key path b _).mpr ⟨_,hb,hbetween⟩

/-- The first step of a path to severed mappings: they stand there, or in the mappings there. -/
theorem SeveredAt.cases {a b c l u : Entries} {path : List Scalar} (h : SeveredAt a b c path l u) :
    ∃ key rest lower between upper, path = key :: rest ∧ a.find? key = some (.map lower) ∧
      b.find? key = some between ∧ c.find? key = some (.map upper) ∧
      ((rest = [] ∧ lower = l ∧ upper = u ∧ ∀ middle, between ≠ .map middle) ∨
        ∃ middle, between = .map middle ∧ SeveredAt lower middle upper rest l u) := by
  obtain ⟨hl,hu,between,hbetween,hother⟩ := h
  cases path with
  | nil => exact absurd (Option.some.inj hbetween).symm (hother b)
  | cons key path =>
    rw [Value.at?_cons_eq_some_iff] at hl hu hbetween
    obtain ⟨x,hx,hl⟩ := hl
    obtain ⟨y,hy,hbetween⟩ := hbetween
    obtain ⟨z,hz,hu⟩ := hu
    cases path with
    | nil =>
      obtain rfl := Option.some.inj hl
      obtain rfl := Option.some.inj hu
      obtain rfl := Option.some.inj hbetween
      exact ⟨key,[],l,y,u,rfl,hx,hy,hz,.inl ⟨rfl,rfl,rfl,hother⟩⟩
    | cons next path =>
      cases x with
      | map x =>
        cases y with
        | map y =>
          cases z with
          | map z =>
            exact ⟨key,next :: path,x,.map y,z,rfl,hx,hy,hz,.inr ⟨y,rfl,hl,hu,between,hbetween,hother⟩⟩
          | _ => cases hu
        | _ => cases hbetween
      | _ => cases hl

theorem merge_assoc {a b c : Entries} (ha : a.Proper) (hb : b.Proper) (hc : c.Proper)
    (h : ¬ Severed a b c) : merge (merge a b) c = merge a (merge b c) := by
  induction hc generalizing a b with
  | @intro c hdistinct hinner ih =>
    have hbc := distinct_merge hb.distinct hdistinct
    refine Entries.eq_of_find? ?_
      (distinct_merge (distinct_merge ha.distinct hb.distinct) hdistinct) fun key => ?_
    · have hnew : c.keys.filter (fun key => ((merge a b).find? key).isNone) =
          (c.keys.filter fun key => (b.find? key).isNone).filter
            fun key => (a.find? key).isNone := by
        rw [List.filter_filter]
        refine List.filter_congr fun key _ => ?_
        rw [find?_merge a hb.distinct,isNone_overlay]
      rw [keys_merge _ hdistinct,keys_merge a hb.distinct,keys_merge a hbc,keys_merge b hdistinct,
        List.filter_append,List.append_assoc,hnew]
    · rw [find?_merge _ hdistinct,find?_merge a hb.distinct,find?_merge a hbc,
        find?_merge b hdistinct]
      refine overlay_assoc ?_ ?_
      · intro lower upper hlower hupper value hvalue
        by_contra hother
        exact h (.of_find? hlower hvalue hupper fun middle hmiddle => hother ⟨middle,hmiddle⟩)
      · intro lower middle upper hlower hmiddle hupper
        obtain ⟨k,hk⟩ := Entries.mem_of_find? hupper
        have hwhole : ¬ Severed lower middle upper := mt (.of_inner hlower hmiddle hupper) h
        exact ih k upper hk (ha.inner hlower) (hb.inner hmiddle) hwhole

/-- What combining the lower two layers first, or the upper two, leaves of severed mappings. -/
theorem merge_of_severedAt {a b c lower upper : Entries} {path : List Scalar} (ha : a.Proper)
    (hb : b.Proper) (hc : c.Proper) (h : SeveredAt a b c path lower upper) :
    (Value.map (merge (merge a b) c)).at? path = some (.map upper) ∧
      (Value.map (merge a (merge b c))).at? path = some (.map (merge lower upper)) := by
  induction path generalizing a b c with
  | nil =>
    obtain ⟨key,rest,l,between,u,hpath,-⟩ := h.cases
    cases hpath
  | cons key path ih =>
    obtain ⟨_,_,l,between,u,⟨⟩,hl,hbetween,hu,hcases⟩ := h.cases
    rw [Value.at?_cons_eq_some_iff,Value.at?_cons_eq_some_iff,find?_merge _ hc.distinct,
      find?_merge a hb.distinct,find?_merge a (distinct_merge hb.distinct hc.distinct),
      find?_merge b hc.distinct,hl,hbetween,hu]
    rcases hcases with ⟨rfl,rfl,rfl,hother⟩ | ⟨middle,rfl,hinner⟩
    · have hbelow : ∀ entries, some between ≠ some (.map entries) := by simpa using hother
      rw [overlay_of_not_map _ hother,overlay_on_not_map hbelow,overlay_maps]
      exact ⟨⟨_,rfl,rfl⟩,_,rfl,rfl⟩
    · rw [overlay_maps,overlay_maps,overlay_maps,overlay_maps]
      obtain ⟨hleft,hright⟩ := ih (ha.inner hl) (hb.inner hbetween) (hc.inner hu) hinner
      exact ⟨⟨_,rfl,hleft⟩,_,rfl,hright⟩

/-- The laws of layers. An empty layer changes nothing, nor does a layer that is there already, and
layers can be combined in any grouping unless they are severed. Where they are, combining the lower
two first loses the lowest mapping, and combining the upper two first keeps it. -/
theorem layers_combine {a b c : Entries} (ha : a.Proper) (hb : b.Proper) (hc : c.Proper) :
    merge a [] = a ∧ merge [] a = a ∧ merge a a = a ∧ merge (merge a b) b = merge a b ∧
    (¬ Severed a b c → merge (merge a b) c = merge a (merge b c)) ∧
    ∀ path lower upper, SeveredAt a b c path lower upper →
      (Value.map (merge (merge a b) c)).at? path = some (.map upper) ∧
      (Value.map (merge a (merge b c))).at? path = some (.map (merge lower upper)) := by
  refine ⟨merge_nil a,merge_nil_left ha.distinct,merge_self ha,merge_merge_self ha hb,?_,?_⟩
  · exact merge_assoc ha hb hc
  · exact fun path lower upper => merge_of_severedAt ha hb hc

theorem Entries.proper_nil : Entries.Proper [] := .intro .nil (by simp)

/-- An entry in front of a mapping, whose key is new there. -/
theorem Entries.Proper.cons {key : Scalar} {value : Value} {rest : Entries}
    (hnew : rest.find? key = none) (hvalue : ∀ inner, value = .map inner → Entries.Proper inner)
    (hrest : rest.Proper) : Entries.Proper ((key,value) :: rest) := by
  refine .intro ((distinct_cons key value rest).mpr ⟨hnew,hrest.distinct⟩) ?_
  intro k inner hmem
  rcases List.mem_cons.mp hmem with heq | hmem
  · exact hvalue inner (Prod.mk.inj heq).2.symm
  · cases hrest with
    | intro _ hinner => exact hinner k inner hmem

def fileLayer (path key value : String) : Entries :=
  [(.text "file_options",.map [(.text path,.map [(.text key,.text value)])])]

theorem proper_fileLayer (path key value : String) : (fileLayer path key value).Proper := by
  refine .cons rfl ?_ Entries.proper_nil
  rintro _ ⟨⟩
  refine .cons rfl ?_ Entries.proper_nil
  rintro _ ⟨⟩
  exact .cons rfl (by rintro _ ⟨⟩) Entries.proper_nil

theorem find?_single {key k : Scalar} {value found : Value}
    (h : Entries.find? k [(key,value)] = some found) : key.same k = true ∧ value = found := by
  rw [Entries.find?_cons] at h
  split at h
  · exact ⟨by assumption,Option.some.inj h⟩
  · cases h

theorem fileLayers_combine :
    (fileLayer "a.resx" "ClassName" "A").Proper ∧ (fileLayer "a.resx" "Namespace" "N").Proper ∧
    (fileLayer "b.resx" "ClassName" "B").Proper ∧
    ¬ Severed (fileLayer "a.resx" "ClassName" "A") (fileLayer "a.resx" "Namespace" "N")
      (fileLayer "b.resx" "ClassName" "B") ∧
    merge (merge (fileLayer "a.resx" "ClassName" "A") (fileLayer "a.resx" "Namespace" "N"))
      (fileLayer "b.resx" "ClassName" "B") =
    merge (fileLayer "a.resx" "ClassName" "A") (merge (fileLayer "a.resx" "Namespace" "N")
      (fileLayer "b.resx" "ClassName" "B")) := by
  have ha := proper_fileLayer "a.resx" "ClassName" "A"
  have hb := proper_fileLayer "a.resx" "Namespace" "N"
  have hc := proper_fileLayer "b.resx" "ClassName" "B"
  have hwhole : ¬ Severed (fileLayer "a.resx" "ClassName" "A") (fileLayer "a.resx" "Namespace" "N")
      (fileLayer "b.resx" "ClassName" "B") := by
    rintro ⟨path,l,u,h⟩
    -- the mappings of the files are on top of one another, those of the options are not
    obtain ⟨_,_,_,_,_,-,hl,hbetween,hu,⟨-,-,-,hother⟩ | ⟨middle,rfl,h⟩⟩ := h.cases
    · exact hother _ (find?_single hbetween).2.symm
    · obtain ⟨-,⟨⟩⟩ := find?_single hl
      obtain ⟨-,⟨⟩⟩ := find?_single hu
      obtain ⟨k,_,_,_,_,-,hl,-,hu,-⟩ := h.cases
      have hsame := Scalar.same_congr (find?_single hu).1 (.text "a.resx")
      rw [(find?_single hl).1] at hsame
      revert hsame
      decide
  exact ⟨ha,hb,hc,hwhole,(layers_combine ha hb hc).2.2.2.2.1 hwhole⟩

end Config
end TypedResources

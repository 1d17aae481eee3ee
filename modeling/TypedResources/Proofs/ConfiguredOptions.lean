import Mathlib.Data.List.Basic
import Mathlib.Data.List.Induction
import TypedResources.Config.Options

/-! The options that a configuration sets for files. A path is taken from the base directory unless it
is absolute, and so two paths of a configuration may lead to one place. Then the options of the later
one replace those of the earlier one as a whole: an option is kept unless the last path to its place
does not set it. -/
namespace TypedResources

namespace OptionTable

variable {α β : Type}

theorem lookup_assign_of_ne {key k : String} (h : key ≠ k) (value : α)
    (table : List (String × α)) : (assign key value table).lookup k = table.lookup k := by
  have hkey : (k == key) = false := by simpa using h.symm
  induction table with
  | nil => simp [assign,List.lookup_cons,hkey]
  | cons entry rest ih =>
    obtain ⟨k',v⟩ := entry
    by_cases hk : k' = key
    · simp [assign,hk,List.lookup_cons,hkey]
    · simp [assign,hk,List.lookup_cons,ih]

/-- Of several values for one key the last is kept. -/
theorem lookup_foldl_assign (key : α → String) (value : α → β) (xs : List α) (k : String) :
    (xs.foldl (fun table x => assign (key x) (value x) table) []).lookup k =
      ((xs.filter fun x => key x = k).getLast?).map value := by
  induction xs using List.reverseRecOn with
  | nil => rfl
  | append_singleton xs x ih =>
    rw [List.foldl_append,List.foldl_cons,List.foldl_nil,List.filter_append]
    by_cases hx : key x = k
    · simp [← hx,lookup_assign]
    · rw [lookup_assign_of_ne hx,ih]
      simp [hx]

end OptionTable

namespace Config

theorem lookup_optionsOfEntries (entries : Entries) (name : String) :
    (optionsOfEntries entries).lookup name =
      ((entries.filter fun e => e.1.shown = name ∧ e.2.isNull = false).getLast?).map
        (·.2.optionText) := by
  have hset : optionsOfEntries entries = (entries.filter fun e => !e.2.isNull).foldl
      (fun table e => OptionTable.assign e.1.shown e.2.optionText table) [] := by
    rw [List.foldl_filter]
    refine List.foldl_ext _ _ _ fun table e _ => ?_
    obtain ⟨key,value⟩ := e
    cases h : value.isNull <;> simp [h]
  rw [hset,OptionTable.lookup_foldl_assign,List.filter_filter]
  refine congrArg (fun es => (List.getLast? es).map _) (List.filter_congr fun e _ => ?_)
  simp

theorem lookup_fileOptions (base : Option String) (files : Entries) (path : String) :
    (fileOptions base files).lookup path =
      ((files.filter fun e => optionPath base e.1 = path).getLast?).map
        fun e => optionsOf (some e.2) := by
  have h := OptionTable.lookup_foldl_assign (fun e : Scalar × Value => optionPath base e.1)
    (fun e => optionsOf (some e.2)) files path
  exact h

/-- A value sets an option: it is a mapping, and a key with this text holds something. -/
def Sets (value : Value) (name : String) : Prop :=
  ∃ entries, value = .map entries ∧
    ∃ key v, (key,v) ∈ entries ∧ key.shown = name ∧ v.isNull = false

theorem lookup_optionsOf_eq_none_iff (value : Value) (name : String) :
    (optionsOf (some value)).lookup name = none ↔ ¬ Sets value name := by
  cases value with
  | map entries =>
    rw [optionsOf,lookup_optionsOfEntries,Option.map_eq_none_iff,List.getLast?_eq_none_iff,
      List.filter_eq_nil_iff]
    simp [Sets]
  | _ => simp [optionsOf,Sets]

/-- The place of a path: the path itself if it is absolute or if there is no base directory, and else
the path below that directory. -/
def IsPlace (base : Option String) (path place : String) : Prop :=
  ((base = none ∨ path.toList.head? = some '/') ∧ place = path) ∨
    ∃ dir, base = some dir ∧ path.toList.head? ≠ some '/' ∧
      place.toList = Path.join dir.toList path.toList

theorem isPlace_iff (base : Option String) (key : Scalar) (place : String) :
    IsPlace base key.shown place ↔ optionPath base key = place := by
  unfold IsPlace optionPath
  cases base with
  | none => simp [eq_comm]
  | some dir =>
    by_cases h : key.shown.toList.head? = some '/'
    · simp [h,Path.join,eq_comm]
    · have hplace : place.toList = Path.join dir.toList key.shown.toList ↔
          String.ofList (Path.join dir.toList key.shown.toList) = place := by
        rw [← String.toList_inj,String.toList_ofList,eq_comm]
      simp [h,hplace]

/-- The value of the last path that leads to a place. -/
def lastFor? (base : Option String) (files : Entries) (place : String) : Option Value :=
  ((files.filter fun e => optionPath base e.1 = place).getLast?).map (·.2)

theorem lastFor?_append (base : Option String) (xs ys : Entries) (place : String) :
    lastFor? base (xs ++ ys) place = (lastFor? base ys place).or (lastFor? base xs place) := by
  simp only [lastFor?,List.filter_append,List.getLast?_append,Option.map_or]

theorem lastFor?_cons_self (base : Option String) (key : Scalar) (value : Value) (rest : Entries) :
    lastFor? base ((key,value) :: rest) (optionPath base key) =
      (lastFor? base rest (optionPath base key)).or (some value) := by
  have hsingle : lastFor? base [(key,value)] (optionPath base key) = some value := by
    simp [lastFor?]
  rw [← hsingle,← lastFor?_append]
  rfl

/-- What is answered for a file is what the last path to it sets. -/
theorem file_eq_none_iff (global : List (String × String)) (base : Option String) (files : Entries)
    (place name : String) :
    (OptionTable.options ⟨global,fileOptions base files⟩).file place name = none ↔
      ∀ value ∈ lastFor? base files place, ¬ Sets value name := by
  change (((fileOptions base files).lookup place).getD []).lookup name = none ↔ _
  rw [lookup_fileOptions,lastFor?]
  cases (files.filter fun e => optionPath base e.1 = place).getLast? with
  | none => simp
  | some e =>
    change (optionsOf (some e.2)).lookup name = none ↔ _
    simp only [lookup_optionsOf_eq_none_iff,Option.map_some,Option.mem_some_iff,forall_eq']

/-- All that a configuration sets can be written as text. -/
def AllWritable (config files : Entries) : Prop :=
  canSet (config.get? "global_options") = true ∧
    ∀ key value, (key,value) ∈ files → key.isWritable = true ∧ canSet (some value) = true

theorem options_eq_ok_iff {config files : Entries} (base : Option String)
    (h : config.get? "file_options" = some (.map files)) (table : OptionTable) :
    options config base = .ok table ↔ AllWritable config files ∧
      table = ⟨optionsOf (config.get? "global_options"),fileOptions base files⟩ := by
  have heq : options config base =
      if files.all (fun e => e.1.isWritable && canSet (some e.2)) &&
        canSet (config.get? "global_options") then
        .ok ⟨optionsOf (config.get? "global_options"),fileOptions base files⟩
      else .error .unwritable := by
    rw [options,h]
    rfl
  have hall : AllWritable config files ↔
      (files.all (fun e => e.1.isWritable && canSet (some e.2)) &&
        canSet (config.get? "global_options")) = true := by
    simp [AllWritable,and_comm]
  rw [heq,hall]
  split
  · rename_i hwritable
    simp [hwritable,eq_comm]
  · rename_i hwritable
    simp [hwritable]

/-- The options of a configuration can be asked for exactly when all of them can be written. Then an
option of a file is kept, unless some later path leads to the same place and the last such path does
not set it. -/
theorem option_kept_unless_replaced {config files : Entries} (base : Option String)
    (h : config.get? "file_options" = some (.map files)) :
    ((∃ table, options config base = .ok table) ↔ AllWritable config files) ∧
    ∀ table, options config base = .ok table →
      ∀ before path entries after, files = before ++ (path,.map entries) :: after →
        ∀ key value, (key,value) ∈ entries → value.isNull = false →
          ∀ place, IsPlace base path.shown place →
            (table.options.file place key.shown = none ↔
              ∃ last ∈ lastFor? base after place, ¬ Sets last key.shown) := by
  refine ⟨?_,?_⟩
  · simp [options_eq_ok_iff base h]
  · intro table htable before path entries after hfiles key value hmem hvalue place hplace
    obtain rfl := (isPlace_iff base path place).mp hplace
    obtain ⟨-,rfl⟩ := (options_eq_ok_iff base h table).mp htable
    have hsets : Sets (.map entries) key.shown := ⟨entries,rfl,key,value,hmem,rfl,hvalue⟩
    rw [file_eq_none_iff,hfiles,lastFor?_append,lastFor?_cons_self]
    cases lastFor? base after (optionPath base path) with
    | none => simp [hsets]
    | some last => simp

def oneFileTwice : Entries :=
  [(.text "/work/proj/Strings.resx",.map [(.text "ClassName",.text "A")]),
    (.text "Strings.resx",.map [(.text "Namespace",.text "N")])]

/-- The class name is lost: the options below the relative path replace it. -/
theorem oneFileTwice_loses_option :
    Entries.get? [(.text "file_options",.map oneFileTwice)] "file_options" =
      some (.map oneFileTwice) ∧
    IsPlace (some "/work/proj") "/work/proj/Strings.resx" "/work/proj/Strings.resx" ∧
    IsPlace (some "/work/proj") "Strings.resx" "/work/proj/Strings.resx" ∧
    ∃ table, options [(.text "file_options",.map oneFileTwice)] (some "/work/proj") = .ok table ∧
      table.options.file "/work/proj/Strings.resx" "ClassName" = none := by
  have hfiles : Entries.get? [(.text "file_options",.map oneFileTwice)] "file_options" =
    some (.map oneFileTwice) := rfl
  have habsolute : IsPlace (some "/work/proj") "/work/proj/Strings.resx" "/work/proj/Strings.resx" :=
    .inl ⟨.inr (by decide),rfl⟩
  have hrelative : IsPlace (some "/work/proj") "Strings.resx" "/work/proj/Strings.resx" :=
    .inr ⟨"/work/proj",rfl,by decide,by decide⟩
  obtain ⟨hbuilt,hkept⟩ := option_kept_unless_replaced (some "/work/proj") hfiles
  have hwritable : ∀ key value, (key,value) ∈ oneFileTwice →
      key.isWritable = true ∧ canSet (some value) = true := by
    intro key value hmem
    rcases List.mem_pair.mp hmem with h | h <;> obtain ⟨rfl,rfl⟩ := Prod.mk.inj h <;>
      exact ⟨rfl,rfl⟩
  obtain ⟨table,htable⟩ := hbuilt.mpr ⟨rfl,hwritable⟩
  refine ⟨hfiles,habsolute,hrelative,table,htable,?_⟩
  refine (hkept table htable [] _ _ _ rfl (.text "ClassName") (.text "A") (by simp) rfl _
    habsolute).mpr ⟨_,rfl,?_⟩
  rintro ⟨_,⟨⟩,_,_,hmem,hname,-⟩
  obtain ⟨⟩ := List.mem_singleton.mp hmem
  revert hname
  decide

end Config
end TypedResources

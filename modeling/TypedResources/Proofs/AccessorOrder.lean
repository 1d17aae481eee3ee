import TypedResources.General.List
import TypedResources.Proofs.Completeness

/-! The order of a generated class. Its accessors come by rising name, and those of one name in the
order of their entries; its constants come in the order of the entries. So classes of the same entries
in other orders differ in the order of their constants alone, if no name comes twice. -/
namespace TypedResources

/-- The entry gets an accessor and a constant. -/
def Entry.isNamed (e : Entry) : Bool := e.name.any (· ≠ "")

namespace AccessorClass

/-- The entries with a name by rising name, those of one name in their order. -/
structure InNameOrder (listed entries : List Entry) : Prop where
  complete : listed.Perm (entries.filter (·.isNamed))
  rising : listed.Pairwise fun a b => a.name.getD "" ≤ b.name.getD ""
  stable : ∀ name, name ≠ "" →
    listed.filter (·.name = some name) = entries.filter (·.name = some name)

/-- A catalog from the line that opens it to the last constant: each holds the name of an entry, and
they come in the order of the entries. -/
def catalog (className : String) (entries : List Entry) : String :=
  Text.unlines (["    internal partial class " ++ className ++ "Names","    \x7b"] ++
    (entries.filterMap (·.accessorName?)).map fun name =>
      "        public const string @" ++ Identifier.sanitize name ++ " = \"" ++ name ++ "\";")

/-- The lines show an entry under its name, a text behind its doc comment. -/
structure ShowsEntry (shared : String) (e : Entry) (lines : List String) : Prop where
  shown : ∃ name, e.name = some name ∧ Accessor.Shows shared name e lines
  comment : e.isText = true → ∃ summary, Summary.render e = .ok summary ∧
    lines.head? = some ("        /// " ++ summary)

/-- The text of a class falls apart into the part with the accessors, in the order of the names, the
catalog, in the order of the entries, and the end. -/
structure FallsApart (c : AccessorClass) (entries : List Entry) (before after : String) :
    Prop where
  text : c.render = before ++ catalog c.style.className entries ++ after
  accessors : ∃ listed parts, InNameOrder listed entries ∧
    List.Forall₂ (ShowsEntry c.style.shared) listed parts ∧
    before = Text.unlines (c.opening ++ parts.flatten ++ ["    \x7d",""])
  closing : after = Text.unlines c.closing

theorem showsEntry_lines {name : String} {e : Entry} {a : Accessor}
    (ha : Accessor.ofEntry name e = .ok a) (hname : e.name = some name) (shared : String) :
    ShowsEntry shared e (a.lines shared) where
  shown := ⟨name,hname,Accessor.shows_lines ha rfl shared⟩
  comment htext := by
    rw [Accessor.ofEntry,if_pos htext] at ha
    obtain ⟨summary,hsummary,ha⟩ := Except.bind_eq_ok_iff.mp ha
    obtain ⟨arity,-,ha⟩ := Except.bind_eq_ok_iff.mp ha
    obtain rfl := Except.ok.inj ha
    exact ⟨summary,hsummary,rfl⟩

theorem isSome_accessorName? (e : Entry) : e.accessorName?.isSome = e.isNamed := by
  rw [Entry.accessorName?,Entry.isNamed,Option.isSome_filter]

theorem name_of_mem_named {entries : List Entry} {x : String × Entry} (h : x ∈ named entries) :
    x.2.name = some x.1 := by
  obtain ⟨e,-,he⟩ := List.mem_filterMap.mp h
  obtain ⟨name,hname,rfl⟩ := Option.map_eq_some_iff.mp he
  exact (Option.filter_eq_some_iff.mp hname).1

theorem map_snd_named (entries : List Entry) :
    (named entries).map (·.2) = entries.filter (·.isNamed) := by
  rw [named,List.map_filterMap,← List.filterMap_eq_filter]
  refine List.filterMap_congr fun e _ => ?_
  have hsome := isSome_accessorName? e
  cases he : e.accessorName? <;> rw [he] at hsome <;> simp [Option.guard,← hsome]

/-- The sorted entries are in the order of their names. -/
theorem inNameOrder_sortByName (entries : List Entry) :
    InNameOrder ((sortByName (named entries)).map (·.2)) entries := by
  have hnames : ∀ x ∈ sortByName (named entries), x.2.name = some x.1 :=
    fun x hx => name_of_mem_named (List.mem_mergeSort.mp hx)
  refine ⟨?_,?_,fun name hname => ?_⟩
  · rw [← map_snd_named]
    exact (List.mergeSort_perm _ _).map _
  · rw [List.pairwise_map]
    refine (sortByName_ordered (named entries)).imp_of_mem fun ha hb hle => ?_
    rwa [hnames _ ha,hnames _ hb]
  · have hstable : (sortByName (named entries)).filter (fun x => x.2.name = some name) =
        (named entries).filter fun x => x.2.name = some name := by
      refine List.filter_mergeSort le_trans_names le_total_names fun a ha b hb hpa hpb => ?_
      have hsame : a.1 = b.1 := by
        rw [name_of_mem_named ha,decide_eq_true_eq] at hpa
        rw [name_of_mem_named hb,decide_eq_true_eq] at hpb
        exact Option.some.inj (hpa.trans hpb.symm)
      exact decide_eq_true hsame.le
    have hnamed : ∀ e ∈ entries,
        (decide (e.name = some name) && e.isNamed) = decide (e.name = some name) := by
      intro e _
      by_cases he : e.name = some name <;> simp [Entry.isNamed,he,hname]
    calc ((sortByName (named entries)).map (·.2)).filter (·.name = some name)
        = ((sortByName (named entries)).filter fun x => x.2.name = some name).map (·.2) :=
          List.filter_map
      _ = ((named entries).map (·.2)).filter (·.name = some name) := by
          rw [hstable,List.filter_map]
          rfl
      _ = entries.filter (·.name = some name) := by
          rw [map_snd_named,List.filter_filter,List.filter_congr hnamed]

/-- Entries with distinct names are sorted to one list, in whatever order they come. -/
theorem sortByName_eq_of_perm {entries others : List Entry} (hperm : others.Perm entries)
    (hdistinct : (entries.filterMap (·.accessorName?)).Nodup) :
    sortByName (named others) = sortByName (named entries) := by
  have hnamed : (named others).Perm (named entries) := hperm.filterMap _
  have hsorted : (sortByName (named others)).Perm (sortByName (named entries)) :=
    (List.mergeSort_perm _ _).trans (hnamed.trans (List.mergeSort_perm _ _).symm)
  refine hsorted.eq_of_pairwise ?_ (sortByName_ordered _) (sortByName_ordered _)
  intro a b ha hb hab hba
  have ha' : a ∈ named entries := hnamed.mem_iff.mp (List.mem_mergeSort.mp ha)
  have hb' : b ∈ named entries := List.mem_mergeSort.mp hb
  rw [← map_fst_named] at hdistinct
  exact List.inj_on_of_nodup_map hdistinct ha' hb' (le_antisymm hab hba)

theorem ofEntries_eq_ok_iff {scope : Option String} {style : Plumbing.Style} {entries : List Entry}
    {c : AccessorClass} : ofEntries scope style entries = .ok c ↔ ∃ accessors,
      (sortByName (named entries)).mapM (fun x => Accessor.ofEntry x.1 x.2) = .ok accessors ∧
        c = ⟨scope,style,accessors,(named entries).map (·.1)⟩ := by
  rw [ofEntries,Except.bind_eq_ok_iff]
  exact exists_congr fun accessors =>
    and_congr_right fun _ => ⟨fun h => (Except.ok.inj h).symm,fun h => congrArg _ h.symm⟩

theorem render_eq (c : AccessorClass) : c.render =
    Text.unlines (c.opening ++ c.accessors.flatMap (Accessor.lines c.style.shared) ++
      ["    \x7d",""]) ++
    Text.unlines (["    internal partial class " ++ c.style.className ++ "Names","    \x7b"] ++
      c.names.map constantLine) ++ Text.unlines c.closing := by
  rw [← Text.unlines_append,← Text.unlines_append,render,lines,middle]
  simp only [List.append_assoc,List.cons_append,List.nil_append]

theorem fallsApart_of_ofEntries {scope : Option String} {style : Plumbing.Style}
    {entries : List Entry} {c : AccessorClass} (h : ofEntries scope style entries = .ok c) :
    FallsApart c entries
      (Text.unlines (c.opening ++ c.accessors.flatMap (Accessor.lines c.style.shared) ++
        ["    \x7d",""]))
      (Text.unlines c.closing) := by
  obtain ⟨accessors,hmade,rfl⟩ := ofEntries_eq_ok_iff.mp h
  refine ⟨?_,?_,rfl⟩
  · rw [render_eq,catalog,← map_fst_named]
    rfl
  · refine ⟨_,accessors.map (Accessor.lines style.shared),inNameOrder_sortByName entries,?_,?_⟩
    · rw [List.forall₂_map_left_iff,List.forall₂_map_right_iff]
      have hnames : ∀ x ∈ sortByName (named entries), x.2.name = some x.1 :=
        fun x hx => name_of_mem_named (List.mem_mergeSort.mp hx)
      refine ((List.forall₂_and_left _ _).mpr ⟨hnames,Except.forall₂_of_mapM hmade⟩).imp ?_
      rintro x a ⟨hname,ha⟩
      exact showsEntry_lines ha hname style.shared
    · rw [← List.flatMap_def]

/-- The accessors of a class come by name, each named entry once, and the constants by entry. Entries
with distinct names give a class in every order, and its text is the same but for the catalog. -/
theorem accessors_by_name_constants_by_entry {scope : Option String} {style : Plumbing.Style}
    {entries : List Entry} {c : AccessorClass} (h : ofEntries scope style entries = .ok c) :
    ∃ before after, FallsApart c entries before after ∧
      ∀ others : List Entry, others.Perm entries →
        (entries.filterMap (·.accessorName?)).Nodup →
          ∃ c', ofEntries scope style others = .ok c' ∧ FallsApart c' others before after := by
  refine ⟨_,_,fallsApart_of_ofEntries h,fun others hperm hdistinct => ?_⟩
  obtain ⟨accessors,hmade,rfl⟩ := ofEntries_eq_ok_iff.mp h
  rw [← sortByName_eq_of_perm hperm hdistinct] at hmade
  have hothers : ofEntries scope style others =
      .ok ⟨scope,style,accessors,(named others).map (·.1)⟩ := ofEntries_eq_ok_iff.mpr ⟨_,hmade,rfl⟩
  -- what comes before the catalog and after it does not depend on the constants
  exact ⟨_,hothers,fallsApart_of_ofEntries hothers⟩

/-- Three names that are not in order, and an entry without a name among them. -/
def letterEntries : List Entry :=
  [⟨some "b",some "2",none,none⟩,⟨none,some "0",none,none⟩,⟨some "B",some "3",none,none⟩,
    ⟨some "a",some "1",none,none⟩]

theorem letters_by_name_and_by_entry :
    letterEntries.reverse.Perm letterEntries ∧
    (letterEntries.filterMap (·.accessorName?)).Nodup ∧
    ∃ c c' before after,
      ofEntries (some "App") ⟨"Strings","App.Strings",false,true⟩ letterEntries = .ok c ∧
      FallsApart c letterEntries before after ∧
      ofEntries (some "App") ⟨"Strings","App.Strings",false,true⟩ letterEntries.reverse = .ok c' ∧
      FallsApart c' letterEntries.reverse before after := by
  have hentries : ∀ e ∈ letterEntries, e.Clean ∧
      ∀ v ∈ e.value, v.toList.length ≤ Number.maxDecimalDigits := by
    intro e he
    simp only [letterEntries,List.mem_cons,List.not_mem_nil,or_false] at he
    rcases he with rfl | rfl | rfl | rfl <;> refine ⟨?_,by simp [Number.maxDecimalDigits]⟩ <;>
      constructor <;> simp [Markup.Clean,Markup.isChar]
  have hperm : letterEntries.reverse.Perm letterEntries := List.reverse_perm _
  have hdistinct : (letterEntries.filterMap (·.accessorName?)).Nodup := by decide
  obtain ⟨c,hc⟩ := ofEntries_isOk (fun e he => (hentries e he).1) (fun e he => (hentries e he).2)
    (some "App") ⟨"Strings","App.Strings",false,true⟩
  obtain ⟨before,after,hparts,hothers⟩ := accessors_by_name_constants_by_entry hc
  obtain ⟨c',hc',hparts'⟩ := hothers letterEntries.reverse hperm hdistinct
  exact ⟨hperm,hdistinct,c,c',before,after,hc,hparts,hc',hparts'⟩

end AccessorClass
end TypedResources

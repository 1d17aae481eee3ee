import Mathlib.Data.List.Induction
import Mathlib.Data.List.Nodup
import TypedResources.General.Except
import TypedResources.General.List
import TypedResources.Proofs.Account

/-! What a generated class shows of the declarations of its group: a constant for each name in the
order of the declarations, and an accessor for each name in the order of the names. -/
namespace TypedResources

namespace Text

/-- The items between the commas of a text, without the blanks before them. -/
def items (text : String) : List String :=
  (text.toList.splitOn ',').map fun cs => String.ofList (cs.dropWhile (· == ' '))

theorem toList_commaSeparated (x : String) (rest : List String) :
    (commaSeparated (x :: rest)).toList =
      [','].intercalate (x.toList :: rest.map fun y => ' ' :: y.toList) := by
  induction rest generalizing x with
  | nil => simp [commaSeparated]
  | cons y rest ih =>
    have hmore : (commaSeparated (x :: y :: rest)).toList =
        x.toList ++ ',' :: ' ' :: (commaSeparated (y :: rest)).toList := by
      simp [commaSeparated]
    rw [hmore,ih y]
    cases rest <;> simp [List.intercalate]

/-- What was put between commas comes back. -/
theorem items_commaSeparated {xs : List String} (hne : xs ≠ [])
    (h : ∀ x ∈ xs, ',' ∉ x.toList ∧ x.toList.head? ≠ some ' ') :
    items (commaSeparated xs) = xs := by
  obtain ⟨x,rest,rfl⟩ := List.exists_cons_of_ne_nil hne
  have hdrop : ∀ y ∈ x :: rest, y.toList.dropWhile (· == ' ') = y.toList := by
    intro y hy
    have hhead := (h y hy).2
    cases hl : y.toList with
    | nil => rfl
    | cons c cs =>
      rw [hl,List.head?_cons,ne_eq,Option.some.injEq] at hhead
      simp [hhead]
  have hcomma : ∀ l ∈ x.toList :: rest.map fun y => ' ' :: y.toList, ',' ∉ l := by
    intro l hl
    rcases List.mem_cons.mp hl with rfl | hl
    · exact (h x (by simp)).1
    · obtain ⟨y,hy,rfl⟩ := List.mem_map.mp hl
      simpa using (h y (by simp [hy])).1
  rw [items,toList_commaSeparated,List.splitOn_intercalate ',' hcomma (by simp),List.map_cons,
    List.map_map,hdrop x (by simp),String.ofList_toList]
  congr 1
  refine (List.map_congr_left fun y hy => ?_).trans (List.map_id rest)
  simp [hdrop y (by simp [hy])]

end Text

namespace Merge

theorem names_add (merged : List Entry) (e : Entry) :
    (add merged e).map (·.name) =
      if e.name ∈ merged.map (·.name) then merged.map (·.name)
      else merged.map (·.name) ++ [e.name] := by
  have hany : merged.any (·.name == e.name) = true ↔ e.name ∈ merged.map (·.name) := by
    simp
  unfold add
  split
  · rename_i hold
    rw [if_pos (hany.mp hold),List.map_map]
    refine List.map_congr_left fun x _ => ?_
    by_cases hx : x.name = e.name <;> simp [hx]
  · rename_i hnew
    rw [if_neg fun hmem => hnew (hany.mpr hmem)]
    simp

/-- Merging keeps each name once, in the order in which the names first come. -/
theorem names_entries (batch : List Entry) :
    (entries batch).map (·.name) = (batch.map (·.name)).eraseDups := by
  induction batch using List.reverseRecOn with
  | nil => rfl
  | append_singleton batch e ih =>
    have hlast : entries (batch ++ [e]) = add (entries batch) e := by
      simp [entries,addAll]
    rw [hlast,names_add,ih,List.map_append,List.eraseDups_append,List.map_singleton,
      List.removeAll_singleton]
    simp only [List.mem_eraseDups]
    split <;> simp [List.eraseDups_cons]

end Merge

namespace AccessorClass

/-- The names that get accessors, each once, in the order in which they are first declared. -/
def firstNames (declared : List Entry) : List String :=
  (declared.filterMap (·.accessorName?)).eraseDups

theorem map_fst_named (entries : List Entry) :
    (named entries).map (·.1) = entries.filterMap (·.accessorName?) := by
  rw [named,List.map_filterMap]
  refine List.filterMap_congr fun e _ => ?_
  rw [Option.map_map]
  exact Option.map_id'

theorem filterMap_accessorName? (entries : List Entry) : entries.filterMap (·.accessorName?) =
    (entries.map (·.name)).filterMap (·.filter (· ≠ "")) := by
  rw [List.filterMap_map]
  rfl

theorem eq_of_filter_eq_some (a b : Option String) (c : String) (ha : a.filter (· ≠ "") = some c)
    (hb : b.filter (· ≠ "") = some c) : a = b :=
  (Option.filter_eq_some_iff.mp ha).1.trans (Option.filter_eq_some_iff.mp hb).1.symm

theorem names_of_merged (declared : List Entry) :
    (named (Merge.entries declared)).map (·.1) = firstNames declared := by
  rw [map_fst_named,filterMap_accessorName?,Merge.names_entries,
    List.eraseDups_filterMap eq_of_filter_eq_some,firstNames,filterMap_accessorName?]

end AccessorClass

namespace Accessor

/-- A string property: its doc comment, its head and its call. -/
def stringProperty (shared name summary : String) : List String :=
  ["        /// " ++ summary,
    "        public " ++ shared ++ "string? @" ++ Identifier.sanitize name,
    "            => GetString(\"" ++ name ++ "\");",
    ""]

/-- A format method. What is given before the parameters is passed before the name. -/
def formatMethod (shared name summary given passed parameters arguments : String) :
    List String :=
  ["        /// " ++ summary,
    "        public " ++ shared ++ "string? Format" ++ Identifier.sanitize name ++ "(" ++ given ++
      parameters ++ ")",
    "            => GetString(" ++ passed ++ "\"" ++ name ++ "\", " ++ arguments ++ ");",
    ""]

/-- A property of some type: its head and its call. -/
def objectProperty (shared name typeName : String) : List String :=
  ["        public " ++ shared ++ "global::" ++ typeName ++ "? @" ++ Identifier.sanitize name,
    "            => (global::" ++ typeName ++ "?)GetObject(\"" ++ name ++ "\");",
    ""]

/-- What is shown under a name, by the first declaration of the name. -/
inductive Shows (shared name : String) (d : Entry) : List String → Prop
  | property (summary : String) (isText : d.isText = true)
      (arity : Placeholder.arity d.value = .ok none) :
      Shows shared name d (stringProperty shared name summary)
  | formatted (summary parameters arguments : String) (n : Nat) (isText : d.isText = true)
      (arity : Placeholder.arity d.value = .ok (some n))
      (taken : Text.items parameters = (List.range (n+1)).map fun i => "object? arg" ++ toString i)
      (passed : Text.items arguments = (List.range (n+1)).map fun i => "arg" ++ toString i) :
      Shows shared name d
        (stringProperty shared name summary ++
          formatMethod shared name summary "global::System.Globalization.CultureInfo? provider, "
            "provider, " parameters arguments ++
          formatMethod shared name summary "" "" parameters arguments)
  | object (isObject : d.isText = false) :
      Shows shared name d (objectProperty shared name (d.fullTypeName.getD ""))

theorem isDigit_of_mem_toString {n : Nat} {c : Char} (h : c ∈ (toString n).toList) :
    c.isDigit = true := by
  have hdigits : c ∈ Nat.toDigits 10 n := by simpa [toString,Nat.repr] using h
  exact Nat.isDigit_of_mem_toDigits (by simp) (by simp) hdigits

theorem items_numbered (word : String) (hcomma : ',' ∉ word.toList)
    (hhead : ∃ c ∈ word.toList.head?, c ≠ ' ') (n : Nat) :
    Text.items (Text.commaSeparated ((List.range (n+1)).map fun i => word ++ toString i)) =
      (List.range (n+1)).map fun i => word ++ toString i := by
  refine Text.items_commaSeparated (by simp) ?_
  intro x hx
  obtain ⟨i,-,rfl⟩ := List.mem_map.mp hx
  obtain ⟨c,hc,hne⟩ := hhead
  have hfirst : (word ++ toString i).toList.head? = some c := by
    rw [String.toList_append,List.head?_append,hc,Option.some_or]
  refine ⟨?_,by rw [hfirst]; simpa using hne⟩
  rw [String.toList_append,List.mem_append]
  exact fun hmem => hmem.elim hcomma fun hdigit =>
    absurd (isDigit_of_mem_toString hdigit) (by decide)

theorem items_parameters (n : Nat) :
    Text.items (parameters n) = (List.range (n+1)).map fun i => "object? arg" ++ toString i := by
  have hword : ∀ i, "object? " ++ argument i = "object? arg" ++ toString i := by
    intro i
    rw [argument,← String.append_assoc]
    rfl
  rw [parameters,funext hword]
  exact items_numbered _ (by decide) ⟨'o',rfl,by decide⟩ n

theorem items_arguments (n : Nat) :
    Text.items (arguments n) = (List.range (n+1)).map fun i => "arg" ++ toString i :=
  items_numbered "arg" (by decide) ⟨'a',rfl,by decide⟩ n

theorem lines_formatted (shared name summary : String) (n : Nat) :
    (text name summary (some n)).lines shared =
      stringProperty shared name summary ++
        formatMethod shared name summary "global::System.Globalization.CultureInfo? provider, "
          "provider, " (parameters n) (arguments n) ++
        formatMethod shared name summary "" "" (parameters n) (arguments n) := by
  have hgiven : "(" ++ "global::System.Globalization.CultureInfo? provider, " =
      "(global::System.Globalization.CultureInfo? provider, " := by decide
  have hpassed : "            => GetString(" ++ "provider, " ++ "\"" =
      "            => GetString(provider, \"" := by decide
  have hopen : "            => GetString(" ++ "" ++ "\"" = "            => GetString(\"" := by
    decide
  unfold lines formatLines stringProperty formatMethod
  simp only [hpassed,hopen,String.append_assoc]
  simp only [← String.append_assoc,hgiven,String.empty_append]
  simp [String.append_assoc]

/-- The lines of an accessor show the declaration that it has value and type from. -/
theorem shows_lines {name : String} {e d : Entry} {a : Accessor} (ha : ofEntry name e = .ok a)
    (h : e.withComment none = d.withComment none) (shared : String) :
    Shows shared name d (a.lines shared) := by
  obtain ⟨hvalue,htype⟩ := Merge.kept_of_withComment_eq h
  have htext : e.isText = d.isText := by
    simp only [Entry.isText,Entry.embeddedType,hvalue,htype]
  have hfull : e.fullTypeName = d.fullTypeName := by
    simp only [Entry.fullTypeName,htext,Entry.embeddedType,hvalue]
  unfold ofEntry at ha
  split at ha
  · rename_i hisText
    obtain ⟨summary,-,ha⟩ := Except.bind_eq_ok_iff.mp ha
    obtain ⟨arity,harity,ha⟩ := Except.bind_eq_ok_iff.mp ha
    obtain rfl := Except.ok.inj ha
    rw [hvalue] at harity
    rw [htext] at hisText
    cases arity with
    | none => exact .property summary hisText harity
    | some n =>
      rw [lines_formatted]
      exact .formatted summary (parameters n) (arguments n) n hisText harity (items_parameters n)
        (items_arguments n)
  · rename_i hobject
    obtain rfl := Except.ok.inj ha
    rw [hfull]
    rw [htext] at hobject
    exact .object (Bool.eq_false_of_not_eq_true hobject)

end Accessor

namespace AccessorClass

theorem le_trans_names (a b c : String × Entry) (hab : decide (a.1 ≤ b.1) = true)
    (hbc : decide (b.1 ≤ c.1) = true) : decide (a.1 ≤ c.1) = true :=
  decide_eq_true ((of_decide_eq_true hab).trans (of_decide_eq_true hbc))

theorem le_total_names (a b : String × Entry) :
    (decide (a.1 ≤ b.1) || decide (b.1 ≤ a.1)) = true := by
  simpa using le_total a.1 b.1

theorem sortByName_ordered (entries : List (String × Entry)) :
    (sortByName entries).Pairwise fun a b => a.1 ≤ b.1 :=
  (List.pairwise_mergeSort le_trans_names le_total_names entries).imp of_decide_eq_true

theorem sortByName_rising {entries : List (String × Entry)} (h : (entries.map (·.1)).Nodup) :
    ((sortByName entries).map (·.1)).Pairwise (· < ·) := by
  have hnodup : ((sortByName entries).map (·.1)).Nodup :=
    (((List.mergeSort_perm entries _).map _).nodup_iff).mpr h
  rw [List.pairwise_map]
  refine ((sortByName_ordered entries).and (List.pairwise_map.mp hnodup)).imp ?_
  rintro a b ⟨hle,hne⟩
  exact lt_of_le_of_ne hle hne

theorem nodup_named {entries : List Entry} (h : (entries.map (·.name)).Nodup) :
    ((named entries).map (·.1)).Nodup := by
  rw [map_fst_named,filterMap_accessorName?]
  exact h.filterMap eq_of_filter_eq_some

/-- What a class shows of declarations: its constants are the names in the order of the
declarations, its accessors those in the order of the names, each by its first declaration. -/
structure ShowsAll (c : AccessorClass) (declared : List Entry) : Prop where
  constants : c.names = firstNames declared
  distinct : c.names.Nodup
  sections : ∃ names parts, names.Perm c.names ∧ names.Pairwise (· < ·) ∧
    List.Forall₂ (fun name lines => ∃ d, declared.find? (·.name = some name) = some d ∧
      Accessor.Shows c.style.shared name d lines) names parts ∧
    c.lines = c.opening ++ parts.flatten ++ c.middle ++ c.names.map constantLine ++ c.closing

/-- The class of merged declarations shows all of them. -/
theorem showsAll_of_merged {scope : Option String} {style : Plumbing.Style} {declared : List Entry}
    {c : AccessorClass} (h : ofEntries scope style (Merge.entries declared) = .ok c) :
    c.ShowsAll declared := by
  obtain ⟨accessors,hmade,hc⟩ := Except.bind_eq_ok_iff.mp h
  obtain rfl := Except.ok.inj hc
  have hnodup := nodup_named (@Merge.nodup_addAll [] (by simp) declared)
  refine ⟨names_of_merged declared,hnodup,
    (sortByName (named (Merge.entries declared))).map (·.1),
    accessors.map (Accessor.lines style.shared),(List.mergeSort_perm _ _).map _,
    sortByName_rising hnodup,?_,by rw [← List.flatMap_def]; rfl⟩
  rw [List.forall₂_map_left_iff,List.forall₂_map_right_iff]
  refine List.Forall₂.imp ?_ ((List.forall₂_and_left _ _).mpr
    ⟨fun x hx => (mem_sortByName_named x).mp hx,Except.forall₂_of_mapM hmade⟩)
  rintro ⟨name,e⟩ a ⟨⟨he,hname⟩,ha⟩
  obtain ⟨d,hd,hcore⟩ := Merge.find?_of_mem he
  rw [(Option.filter_eq_some_iff.mp hname).1] at hd
  exact ⟨d,hd,Accessor.shows_lines ha hcore style.shared⟩

end AccessorClass

namespace Generate

/-- The class of a group whose files are all read shows everything that the files declare. -/
theorem group_shows_all_declarations {job : Job} {g : ResourceGroup} {cancelled : Bool}
    {settings : Settings} {early : List Diagnostic} {resourceName : String}
    {made : Artifact × List Diagnostic}
    (hsettings : Settings.resolve job.current job.options job.assemblyName g =
      .ok (settings,early))
    (hname : settings.resourceName = some resourceName)
    (hreads : Loading.ReadsAll cancelled (ResourceGroup.sortFiles g.files))
    (h : (group job g cancelled).result = .ok made) :
    ∃ c : AccessorClass, c.style = ⟨settings.className,resourceName,settings.useInstanceMembers,
        job.supportsNullableAttributes⟩ ∧ c.scope = settings.targetNamespace ∧
      c.ShowsAll (Loading.allDeclarations g) ∧
      made.1.text = Header.render g.key g.paths settings ++ Text.unlines c.lines := by
  obtain ⟨settings',early',loaded,hs,hl,ha,-⟩ := (group_result_eq_ok _ _ _ _).mp h
  obtain ⟨rfl,rfl⟩ := Prod.mk.inj (Except.ok.inj (hsettings.symm.trans hs))
  have hall := (Loading.load_eq_some_iff g cancelled _ _).mpr ⟨hreads,rfl,rfl⟩
  obtain rfl := Except.ok.inj (hl.symm.trans hall)
  rcases artifact_text ha with ⟨hnone,-⟩ | ⟨resourceName',found,c,hr,he,hc,htext⟩
  · simp [hname] at hnone
  · obtain rfl := Option.some.inj (hname.symm.trans hr)
    obtain rfl := Option.some.inj he
    refine ⟨c,?_,AccessorClass.scope_of_ofEntries hc,AccessorClass.showsAll_of_merged hc,htext⟩
    obtain ⟨accessors,-,hok⟩ := Except.bind_eq_ok_iff.mp hc
    obtain rfl := Except.ok.inj hok
    rfl

end Generate

namespace Loading

theorem declarations_oneEntryFile {value : List Char} (h : Markup.IsPlain value) (path : String) :
    declarations (oneEntryFile path value) =
      [⟨some "x",some (String.ofList value),none,none⟩] := by
  rw [declarations,contribution_oneEntryFile h]
  rfl

theorem readsAll_of_forall {files : List ResourceFile} (h : ∀ f ∈ files, f.cancels = false ∧
    (added (contribution f.content)).isSome) : ReadsAll false files := by
  induction files with
  | nil => trivial
  | cons f rest ih =>
    obtain ⟨hcancels,hread⟩ := h f (by simp)
    refine ⟨rfl,hread,?_⟩
    rw [hcancels]
    exact ih fun x hx => h x (by simp [hx])

end Loading

namespace Generate

def englishGreeting : List Char := "Hi \x7b0\x7d".toList

def frenchGreeting : List Char := "Salut".toList

theorem isPlain_greetings : Markup.IsPlain englishGreeting ∧ Markup.IsPlain frenchGreeting := by
  unfold englishGreeting frenchGreeting
  simp [Markup.IsPlain,Markup.isChar]

/-- A greeting with a placeholder, and a translation without one. -/
def greetings : ResourceGroup :=
  ⟨"a",[oneEntryFile "a.fr.resx" frenchGreeting,oneEntryFile "a.resx" englishGreeting]⟩

theorem allDeclarations_greetings : Loading.allDeclarations greetings =
    [⟨some "x",some "Hi \x7b0\x7d",none,none⟩,⟨some "x",some "Salut",none,none⟩] := by
  have hbefore : Key.orderedBefore "a.fr.resx" "a.resx" = false := by decide
  have hsorted : ResourceGroup.sortFiles greetings.files =
      [oneEntryFile "a.resx" englishGreeting,oneEntryFile "a.fr.resx" frenchGreeting] := by
    simp [ResourceGroup.sortFiles,greetings,List.mergeSort,List.MergeSort.Internal.splitInTwo,
      oneEntryFile,ResourceFile.ofText,hbefore]
  rw [Loading.allDeclarations,hsorted,List.flatMap_cons,List.flatMap_cons,
    Loading.declarations_oneEntryFile isPlain_greetings.1,
    Loading.declarations_oneEntryFile isPlain_greetings.2]
  rfl

/-- Two files declare one name, which gets one constant. -/
theorem greetings_show_all_declarations :
    (∃ settings early, Settings.resolve namingJob.current namingJob.options namingJob.assemblyName
      greetings = .ok (settings,early) ∧ settings.resourceName = some "Texts") ∧
    Loading.ReadsAll false (ResourceGroup.sortFiles greetings.files) ∧
    ∃ made, (group namingJob greetings false).result = .ok made ∧
      ∃ c, AccessorClass.ShowsAll c (Loading.allDeclarations greetings) ∧ c.names = ["x"] := by
  have hfiles : ∀ f ∈ greetings.files, ∃ path value, Markup.IsPlain value ∧
      value.length ≤ Number.maxDecimalDigits ∧ f = oneEntryFile path value := by
    intro f hf
    simp only [greetings,List.mem_cons,List.not_mem_nil,or_false] at hf
    rcases hf with rfl | rfl
    · exact ⟨_,_,isPlain_greetings.2,by decide,rfl⟩
    · exact ⟨_,_,isPlain_greetings.1,by decide,rfl⟩
  have hreads : Loading.ReadsAll false (ResourceGroup.sortFiles greetings.files) := by
    refine Loading.readsAll_of_forall fun f hf => ?_
    obtain ⟨path,value,hplain,-,rfl⟩ :=
      hfiles f ((ResourceGroup.sortFiles_perm _).mem_iff.mp hf)
    rw [Loading.contribution_oneEntryFile hplain]
    exact ⟨rfl,rfl⟩
  have hshort : ∀ f ∈ greetings.files, ∀ e ∈ Loading.declarations f, ¬ e.IsOverlong := by
    intro f hf
    obtain ⟨path,value,hplain,hlength,rfl⟩ := hfiles f hf
    exact not_isOverlong_oneEntryFile hplain hlength path
  have hcontained : FailContained greetings.files := by
    simp [FailContained,greetings,oneEntryFile,ResourceFile.ofText]
  obtain ⟨-,-,hok⟩ := @group_survives namingJob (by simp [namingJob]) greetings
    (by simp [greetings]) hcontained false
  obtain ⟨made,hmade⟩ := hok (not_endsRun hshort namingJob false)
  obtain ⟨c,-,-,hshows,-⟩ := group_shows_all_declarations rfl rfl hreads hmade
  refine ⟨⟨_,_,rfl,rfl⟩,hreads,made,hmade,c,hshows,?_⟩
  rw [hshows.constants,allDeclarations_greetings]
  rfl

end Generate
end TypedResources

import TypedResources.General.Except
import TypedResources.Proofs.Yaml.Course
import TypedResources.Yaml.Meaning

/-! Reading the value of a node finds faults besides a wrong form only where a node in it has a tag
that its own text does not fit, or has no meaning by itself. -/
namespace TypedResources.Yaml

namespace Node

/-- A node is part of another one: it is that node, or part of an item, of a key or of a value. -/
inductive Contains : Node → Node → Prop
  | self (node : Node) : Contains node node
  | item {tag : Tag} {items : List Node} {item part : Node} :
    item ∈ items → Contains item part → Contains (sequence tag items) part
  | key {tag : Tag} {entries : List (Node × Node)} {key value part : Node} :
    (key,value) ∈ entries → Contains key part → Contains (mapping tag entries) part
  | value {tag : Tag} {entries : List (Node × Node)} {key value part : Node} :
    (key,value) ∈ entries → Contains value part → Contains (mapping tag entries) part

theorem Contains.trans {a b c : Node} (hab : a.Contains b) (hbc : b.Contains c) : a.Contains c := by
  induction hab with
  | self => exact hbc
  | item h _ ih => exact .item h (ih hbc)
  | key h _ ih => exact .key h (ih hbc)
  | value h _ ih => exact .value h (ih hbc)

/-- An entry is one of the own entries of a mapping that is part of the node. -/
def HasEntry (node : Node) (entry : Node × Node) : Prop :=
  ∃ tag entries, node.Contains (mapping tag entries) ∧ entry ∈ ownEntries entries

theorem HasEntry.of_part {node part : Node} {entry : Node × Node} (h : part.HasEntry entry)
    (hpart : node.Contains part) : node.HasEntry entry :=
  let ⟨tag,entries,hcontains,hentry⟩ := h
  ⟨tag,entries,hpart.trans hcontains,hentry⟩

theorem broughtIn_cons (key value : Node) (rest : List (Node × Node)) :
    broughtIn ((key,value) :: rest) = (if key.tag = .merge then value.sources else some []).bind
      fun here => (broughtIn rest).map (here ++ ·) := by
  have hmap : ∀ here, (do return here ++ (← broughtIn rest)) = (broughtIn rest).map (here ++ ·) := by
    cases broughtIn rest <;> exact fun _ => rfl
  rw [broughtIn]
  split
  · exact congrArg value.sources.bind (funext hmap)
  · exact hmap []

mutual

/-- What merge keys bring in are entries of the values of these keys. -/
theorem hasEntry_of_broughtIn {entries more : List (Node × Node)} {entry : Node × Node}
    (h : broughtIn entries = some more) (hentry : entry ∈ more) :
    ∃ key value, (key,value) ∈ entries ∧ value.HasEntry entry := by
  match entries with
  | [] =>
    rw [broughtIn] at h
    obtain rfl := Option.some.inj h
    cases hentry
  | (key,value) :: rest =>
    rw [broughtIn_cons] at h
    obtain ⟨here,hhere,h⟩ := Option.bind_eq_some_iff.mp h
    obtain ⟨others,hothers,rfl⟩ := Option.map_eq_some_iff.mp h
    rcases List.mem_append.mp hentry with hentry | hentry
    · split at hhere
      · exact ⟨key,value,List.mem_cons_self,hasEntry_of_sources hhere hentry⟩
      · obtain rfl := Option.some.inj hhere
        cases hentry
    · obtain ⟨k,v,hkv,hhas⟩ := hasEntry_of_broughtIn hothers hentry
      exact ⟨k,v,List.mem_cons_of_mem _ hkv,hhas⟩

theorem hasEntry_of_sources {node : Node} {more : List (Node × Node)} {entry : Node × Node}
    (h : node.sources = some more) (hentry : entry ∈ more) : node.HasEntry entry := by
  match node with
  | scalar _ _ => cases h
  | sequence tag items =>
    obtain ⟨item,hitem,hhas⟩ := hasEntry_of_sourcesOfAll h hentry
    exact hhas.of_part (.item hitem (.self item))
  | mapping tag entries =>
    rw [sources] at h
    obtain ⟨here,hhere,rfl⟩ := Option.map_eq_some_iff.mp h
    rcases List.mem_append.mp hentry with hentry | hentry
    · obtain ⟨k,v,hkv,hhas⟩ := hasEntry_of_broughtIn hhere hentry
      exact hhas.of_part (.value hkv (.self v))
    · exact ⟨tag,entries,.self _,hentry⟩

theorem hasEntry_of_sourcesOfAll {items : List Node} {more : List (Node × Node)}
    {entry : Node × Node} (h : sourcesOfAll items = some more) (hentry : entry ∈ more) :
    ∃ item ∈ items, item.HasEntry entry := by
  match items with
  | [] =>
    rw [sourcesOfAll] at h
    obtain rfl := Option.some.inj h
    cases hentry
  | mapping tag entries :: rest =>
    rw [sourcesOfAll] at h
    obtain ⟨here,hhere,h⟩ := Option.bind_eq_some_iff.mp h
    obtain ⟨others,hothers,h⟩ := Option.bind_eq_some_iff.mp h
    obtain rfl := Option.some.inj h
    rcases List.mem_append.mp hentry with hentry | hentry
    · rcases List.mem_append.mp hentry with hentry | hentry
      · obtain ⟨item,hitem,hhas⟩ := hasEntry_of_sourcesOfAll hothers hentry
        exact ⟨item,List.mem_cons_of_mem _ hitem,hhas⟩
      · obtain ⟨k,v,hkv,hhas⟩ := hasEntry_of_broughtIn hhere hentry
        exact ⟨_,List.mem_cons_self,hhas.of_part (.value hkv (.self v))⟩
    · exact ⟨_,List.mem_cons_self,tag,entries,.self _,hentry⟩
  | scalar _ _ :: _ => cases h
  | sequence _ _ :: _ => cases h

end

theorem onlyEntry_eq_ok {node : Node} {entry : Node × Node} (h : node.onlyEntry = .ok entry) :
    ∃ tag, node = mapping tag [entry] := by
  unfold onlyEntry at h
  split at h
  · split at h
    · cases h
    · split at h
      · obtain rfl := Except.ok.inj h
        exact ⟨_,rfl⟩
      · cases h
  · cases h

theorem onlyEntry_eq_error {node : Node} {fault : Fault} (h : node.onlyEntry = .error fault) :
    fault = .malformed ∨ (fault = .identity ∧ ∃ tag entries, node = mapping tag entries ∧
      ∃ key value, (key,value) ∈ entries ∧ key.tag = .merge) := by
  unfold onlyEntry at h
  split at h
  · split at h
    · rename_i hmerge
      obtain ⟨⟨key,value⟩,hkv,htag⟩ := List.any_eq_true.mp hmerge
      exact .inr ⟨(Except.error.inj h).symm,_,_,rfl,key,value,hkv,of_decide_eq_true htag⟩
    · split at h
      · cases h
      · exact .inl (Except.error.inj h).symm
  · exact .inl (Except.error.inj h).symm

end Node

/-- A node has a tag that its text does not fit, or it is tagged as a time and is a mapping that stands
for a text. Or the node alone does not say what it means: not a number, it may equal itself or not; a
list of pairs with a merge key in it, it may hold what is merged or not. -/
inductive Misfit : Node → Fault → Prop
  | text {node : Node} {text : String} {fault : Fault} :
    (∀ entries, node ≠ .mapping .time entries) → node.scalarText? = some text →
    scalarOf node.tag text = .error fault → Misfit node fault
  | mappedTime {entries : List (Node × Node)} :
    (Node.valueText? entries).isSome → Misfit (.mapping .time entries) .mappedTime
  | notNumber {node : Node} {text : String} :
    node.tag = .float → node.scalarText? = some text → floatOf text.toList = .ok .nan →
    Misfit node .identity
  | mergedPair {tag tag' : Tag} {items : List Node} {entries : List (Node × Node)}
    {key value : Node} :
    .mapping tag' entries ∈ items → (key,value) ∈ entries → key.tag = .merge →
    Misfit (.sequence tag items) .identity

/-- What the text of a scalar can be wrong with is no fault that is left out. -/
def Plain {α : Type} (x : Except Fault α) : Prop := ∀ fault, x = .error fault → fault.isLeftOut = false

namespace Plain

variable {α β : Type}

theorem ok (a : α) : Plain (.ok a) := nofun

theorem error {fault : Fault} (h : fault.isLeftOut = false) :
    Plain (.error fault : Except Fault α) :=
  fun _ hfault => Except.error.inj hfault ▸ h

theorem map {x : Except Fault α} (h : Plain x) (f : α → β) : Plain (x.map f) :=
  fun fault hfault => h fault ((Except.map_eq_error_iff _ _ _).mp hfault)

theorem of_ite {p : Prop} [Decidable p] {x y : Except Fault α} (hx : Plain x) (hy : Plain y) :
    Plain (if p then x else y) := by
  split
  · exact hx
  · exact hy

theorem bind {x : Except Fault α} {next : α → Except Fault β} (hx : Plain x)
    (hnext : ∀ a, Plain (next a)) : Plain (x >>= next) := by
  cases x with
  | ok a => exact hnext a
  | error fault => exact error (hx fault rfl)

theorem mapM {f : α → Except Fault β} (h : ∀ a, Plain (f a)) (xs : List α) : Plain (xs.mapM f) :=
  fun fault hfault =>
    let ⟨a,_,ha⟩ := Except.exists_mapM_error hfault
    h a fault ha

theorem atPlace (digit factor : Double) : Plain (Yaml.atPlace digit factor) := by
  cases factor with
  | infinite negative => exact error rfl
  | nan => exact ok _
  | finite negative magnitude => exact ok _

theorem sixties (place : Nat) (total : Double) (ds : List Double) :
    Plain (Yaml.sixties place total ds) := by
  induction ds generalizing place total with
  | nil =>
    rw [Yaml.sixties]
    exact ok _
  | cons d rest ih =>
    rw [Yaml.sixties]
    exact bind (atPlace d _) fun _ => ih _ _

theorem integerOf (cs : List Char) : Plain (Yaml.integerOf cs) := by
  unfold Yaml.integerOf
  dsimp only
  generalize Number.signed _ = parts
  obtain ⟨negative,body⟩ := parts
  refine map ?_ _
  repeat' split
  all_goals first
    | exact ok _
    | exact error rfl
    | refine map (mapM (fun _ => ?_) _) _
      split
      · exact ok _
      · exact error rfl

theorem floatOf (cs : List Char) : Plain (Yaml.floatOf cs) := by
  unfold Yaml.floatOf
  dsimp only
  generalize Number.signed _ = parts
  obtain ⟨negative,body⟩ := parts
  refine map ?_ _
  repeat' refine of_ite ?_ ?_
  · exact error rfl
  · exact ok _
  · exact ok _
  · refine bind (mapM (fun _ => ?_) _) fun _ => sixties _ _ _
    split
    · exact ok _
    · exact error rfl
  · split
    · exact ok _
    · exact error rfl

theorem scalarOf (tag : Tag) (text : String) : Plain (Yaml.scalarOf tag text) := by
  unfold Yaml.scalarOf
  split
  · exact ok _
  · exact map (of_ite (ok _) (of_ite (ok _) (error rfl))) _
  · exact (integerOf _).map _
  · exact (floatOf _).map _
  · unfold timeOf
    repeat' split
    all_goals first | exact ok _ | exact error rfl
  · unfold binaryOf
    split
    · exact ok _
    · exact error rfl
  · exact ok _
  · exact error rfl

end Plain

theorem identity_of_misfit {node : Node} {fault : Fault} (h : Misfit node fault)
    (hout : fault.isLeftOut = true) : fault = .identity := by
  cases h with
  | text _ _ hread =>
    rw [Plain.scalarOf _ _ _ hread] at hout
    cases hout
  | mappedTime => cases hout
  | notNumber => rfl
  | mergedPair => rfl

/-- The form is wrong, or the fault is one of a part of the node. -/
def Node.Explains (node : Node) (fault : Fault) : Prop :=
  fault = .malformed ∨ ∃ part, node.Contains part ∧ Misfit part fault

theorem Node.Explains.of_part {node part : Node} {fault : Fault} (h : part.Explains fault)
    (hpart : node.Contains part) : node.Explains fault :=
  h.imp_right fun ⟨other,hcontains,hmisfit⟩ => ⟨other,hpart.trans hcontains,hmisfit⟩

namespace Faults

theorem mem_beside {fault : Fault} (xs ys : Faults) :
    fault ∈ (beside xs ys).flatten ↔ fault ∈ xs.flatten ∨ fault ∈ ys.flatten := by
  fun_induction beside xs ys with
  | case1 ys => simp
  | case2 xs => simp
  | case3 x xs y ys ih =>
    simp only [List.flatten_cons,List.mem_append,ih]
    grind

theorem mem_ofAll {fault : Fault} (all : List Faults) :
    fault ∈ (ofAll all).flatten ↔ ∃ faults ∈ all, fault ∈ faults.flatten := by
  induction all with
  | nil => simp [ofAll]
  | cons faults all ih =>
    have hcons : ofAll (faults :: all) = beside faults (ofAll all) := rfl
    simp only [hcons,mem_beside,ih,List.mem_cons,exists_eq_or_imp]

theorem mem_here {fault f : Fault} : f ∈ (here fault).flatten ↔ f = fault := by
  simp [here]

theorem mem_of_first? {faults : Faults} {fault : Fault} (h : faults.first? = some fault) :
    fault ∈ faults.flatten :=
  List.mem_of_head? h

end Faults

namespace Reading

def Finds (r : Reading) (fault : Fault) : Prop := fault ∈ r.faults.flatten

variable {f : Fault}

theorem finds_fault {fault : Fault} : (Reading.fault fault).Finds f ↔ f = fault := Faults.mem_here

theorem finds_ofScalar {read : Except Fault Config.Scalar} :
    (ofScalar read).Finds f ↔ read = .error f := by
  cases read with
  | ok s => simp [ofScalar,Finds]
  | error fault => simp [ofScalar,finds_fault,eq_comm]

theorem finds_collection {value : Config.Value} {content : List Faults} :
    (collection value content).Finds f ↔ ∃ faults ∈ content, f ∈ faults.flatten := by
  have hcontent : (collection value content).faults.flatten = (Faults.ofAll content).flatten := rfl
  rw [Finds,hcontent,Faults.mem_ofAll]

theorem finds_unreadable {value : Config.Value} : (unreadable value).Finds f ↔ f = .malformed := by
  simp only [unreadable,finds_collection,List.mem_singleton,exists_eq_left,Faults.mem_here]

theorem finds_members {r : Reading} : r.members.Finds f ↔ r.Finds f := by
  unfold members
  split <;> rfl

/-- The reading is a key that does not equal itself. -/
def IsNotNumber (key : Reading) : Prop := key.value = .scalar (.float .nan)

/-- An entry finds a fault in its key or its value, besides those of its own. -/
def EntryFinds (key value : Reading) (f : Fault) : Prop :=
  key.Finds f ∨ value.Finds f ∨ (key.IsNotNumber ∧ f = .identity)

/-- What stands between the key and the value is a fault of the entry itself. -/
theorem mem_between {key value : Reading} {fault : Fault}
    (h : f ∈ (Faults.ofAll [key.faults,Faults.here fault,value.faults]).flatten) :
    f = fault ∨ key.Finds f ∨ value.Finds f := by
  obtain ⟨faults,hfaults,hf⟩ := (Faults.mem_ofAll _).mp h
  simp only [List.mem_cons,List.not_mem_nil,or_false] at hfaults
  rcases hfaults with rfl | rfl | rfl
  · exact .inr (.inl hf)
  · exact .inl (Faults.mem_here.mp hf)
  · exact .inr (.inr hf)

theorem mem_entryFaults {key value : Reading} (h : f ∈ (entryFaults key value).flatten) :
    f = .malformed ∨ EntryFinds key value f := by
  unfold entryFaults at h
  split at h
  · rename_i hkey
    rcases mem_between h with hf | hf | hf
    · exact .inr (.inr (.inr ⟨hkey,hf⟩))
    · exact .inr (.inl hf)
    · exact .inr (.inr (.inl hf))
  · exact .inr (((Faults.mem_beside _ _).mp h).imp_right .inl)
  · exact (mem_between h).imp_right fun hf => hf.imp_right .inl

/-- What is found in entries is found in one of them. -/
theorem of_finds_ofEntries {entries : List (Reading × Reading)} (h : (ofEntries entries).Finds f) :
    f = .malformed ∨ ∃ key value, (key,value) ∈ entries ∧ EntryFinds key value f := by
  obtain ⟨faults,hfaults,hf⟩ := finds_collection.mp h
  obtain ⟨⟨key,value⟩,hentry,rfl⟩ := List.mem_map.mp hfaults
  exact (mem_entryFaults hf).imp_right fun hfinds => ⟨key,value,hentry,hfinds⟩

theorem of_finds_ofPairs {pairs : List (Except Fault (Reading × Reading))}
    (h : (ofPairs pairs).Finds f) : .error f ∈ pairs ∨
      ∃ key value, .ok (key,value) ∈ pairs ∧ (key.Finds f ∨ value.Finds f) := by
  obtain ⟨faults,hfaults,hf⟩ := finds_collection.mp h
  obtain ⟨pair,hpair,rfl⟩ := List.mem_map.mp hfaults
  match pair with
  | .error fault =>
    obtain rfl := Faults.mem_here.mp hf
    exact .inl hpair
  | .ok (key,value) => exact .inr ⟨key,value,hpair,(Faults.mem_beside _ _).mp hf⟩

/-- As a text, a key is read without a fault, unless there is no text at all. -/
theorem finds_withTag_text {bound : Nat} {key : Node} (h : (within bound (key.withTag .text)).Finds f) :
    f = .malformed := by
  cases bound with
  | zero => exact finds_fault.mp h
  | succ bound =>
    have htag : (key.withTag .text).tag = .text := by cases key <;> rfl
    simp only [within,htag] at h
    split at h
    · cases finds_ofScalar.mp h
    · exact finds_fault.mp h

theorem withTag_text_isNumber {bound : Nat} {key : Node} :
    ¬ (within bound (key.withTag .text)).IsNotNumber := by
  intro h
  cases bound with
  | zero => cases h
  | succ bound =>
    have htag : (key.withTag .text).tag = .text := by cases key <;> rfl
    simp only [within,htag,IsNotNumber] at h
    split at h <;> cases h

theorem scalar_of_value_ofScalar {read : Except Fault Config.Scalar} {s : Config.Scalar}
    (hs : s ≠ .null) (h : (ofScalar read).value = .scalar s) : read = .ok s := by
  cases read with
  | ok r => exact congrArg Except.ok (Config.Value.scalar.inj h)
  | error fault => exact (hs (Config.Value.scalar.inj h).symm).elim

theorem float_of_scalarOf {tag : Tag} {text : String} {x : Double}
    (h : scalarOf tag text = .ok (.float x)) : tag = .float ∧ floatOf text.toList = .ok x := by
  unfold scalarOf at h
  split at h
  · cases h
  · cases hread : truthOf text.toList <;> simp [hread,Except.map] at h
  · cases hread : integerOf text.toList <;> simp [hread,Except.map] at h
  · cases hread : floatOf text.toList <;> simp_all [Except.map]
  · unfold timeOf at h
    repeat' split at h
    all_goals cases h
  · unfold binaryOf at h
    split at h <;> cases h
  · cases h
  · cases h

/-- What reads as not a number is the text of a node with the tag of such numbers. -/
theorem misfit_of_isNotNumber {bound : Nat} {node : Node} (h : (within bound node).IsNotNumber) :
    Misfit node .identity := by
  cases bound with
  | zero => cases h
  | succ bound =>
    unfold IsNotNumber within at h
    dsimp only at h
    split at h
    all_goals try cases h
    · split at h
      · split at h <;> cases h
      · cases h
    · unfold members at h
      split at h <;> cases h
    · split at h
      · have hread := float_of_scalarOf (scalar_of_value_ofScalar nofun h)
        exact .notNumber hread.1 ‹_› hread.2
      · cases h

theorem explains_of_scalarText {node : Node}
    (h : Reading.Finds (match node.scalarText? with
      | some text => ofScalar (scalarOf node.tag text)
      | none => fault .malformed) f)
    (hother : ∀ tag entries, node.tag = .time → node = .mapping tag entries → False) :
    node.Explains f := by
  split at h
  · refine .inr ⟨node,.self node,.text (fun entries hnode => ?_) ‹_› (finds_ofScalar.mp h)⟩
    exact hother .time entries (hnode ▸ rfl) hnode
  · exact .inl (finds_fault.mp h)

section Within

variable {bound : Nat}

/-- Where keys and values are read, an own entry of a mapping adds no fault of its own. -/
theorem explains_of_entry (ih : ∀ node, (within bound node).Finds f → node.Explains f) {node : Node}
    {key value : Node} (hentry : node.HasEntry (key,value))
    (h : EntryFinds (within bound key) (within bound value) f) : node.Explains f := by
  obtain ⟨tag,entries,hmapping,hown⟩ := hentry
  obtain ⟨⟨k,v⟩,hkept,heq⟩ := List.mem_map.mp hown
  obtain ⟨rfl,rfl⟩ := Prod.mk.inj heq
  have hkv := (List.mem_filter.mp hkept).1
  have hkey : node.Contains k := hmapping.trans (.key hkv (.self k))
  rcases h with h | h | ⟨h,rfl⟩
  · split at h
    · exact .inl (finds_withTag_text h)
    · exact (ih k h).of_part hkey
  · exact (ih v h).of_part (hmapping.trans (.value hkv (.self v)))
  · split at h
    · exact (withTag_text_isNumber h).elim
    · exact .inr ⟨k,hkey,misfit_of_isNotNumber h⟩

theorem explains_of_mapped (ih : ∀ node, (within bound node).Finds f → node.Explains f) {node : Node}
    (h : Reading.Finds (match node with
      | .mapping _ entries =>
        match Node.broughtIn entries with
        | some more => ofEntries ((more ++ Node.ownEntries entries).map fun (k,v) =>
          (within bound k,within bound v))
        | none => unreadable (.map [])
      | _ => unreadable (.map [])) f) : node.Explains f := by
  match node with
  | .scalar _ _ => exact .inl (finds_unreadable.mp h)
  | .sequence _ _ => exact .inl (finds_unreadable.mp h)
  | .mapping tag entries =>
    dsimp only at h
    split at h
    · rename_i more hmore
      refine (of_finds_ofEntries h).elim .inl fun ⟨key,value,hentry,hfinds⟩ => ?_
      obtain ⟨⟨k,v⟩,hkv,heq⟩ := List.mem_map.mp hentry
      obtain ⟨rfl,rfl⟩ := Prod.mk.inj heq
      refine explains_of_entry ih ?_ hfinds
      rcases List.mem_append.mp hkv with hkv | hkv
      · obtain ⟨_,source,hsource,hhas⟩ := Node.hasEntry_of_broughtIn hmore hkv
        exact hhas.of_part (.value hsource (.self source))
      · exact ⟨tag,entries,.self _,hkv⟩
    · exact .inl (finds_unreadable.mp h)

theorem explains_of_items (ih : ∀ node, (within bound node).Finds f → node.Explains f) {tag : Tag}
    {items : List Node}
    (h : Reading.Finds (let read := items.map (within bound)
      collection (.list (read.map (·.value))) (read.map (·.faults))) f) :
    (Node.sequence tag items).Explains f := by
  obtain ⟨faults,hfaults,hf⟩ := finds_collection.mp h
  obtain ⟨_,hread,rfl⟩ := List.mem_map.mp hfaults
  obtain ⟨item,hitem,rfl⟩ := List.mem_map.mp hread
  exact (ih item hf).of_part (.item hitem (.self item))

theorem explains_of_pairs (ih : ∀ node, (within bound node).Finds f → node.Explains f) {tag : Tag}
    {items : List Node}
    (h : Reading.Finds (ofPairs (items.map fun item => item.onlyEntry.map fun (k,v) =>
      (within bound k,within bound v))) f) : (Node.sequence tag items).Explains f := by
  rcases of_finds_ofPairs h with hpair | ⟨key,value,hpair,hfinds⟩
  · obtain ⟨item,hitem,heq⟩ := List.mem_map.mp hpair
    rcases Node.onlyEntry_eq_error ((Except.map_eq_error_iff _ _ _).mp heq) with
      rfl | ⟨rfl,tag',entries,rfl,key,value,hkv,hmerge⟩
    · exact .inl rfl
    · exact .inr ⟨_,.self _,.mergedPair hitem hkv hmerge⟩
  · obtain ⟨item,hitem,heq⟩ := List.mem_map.mp hpair
    obtain ⟨⟨k,v⟩,honly,heq⟩ := (Except.map_eq_ok_iff _ _ _).mp heq
    obtain ⟨rfl,rfl⟩ := Prod.mk.inj heq
    obtain ⟨tag',rfl⟩ := Node.onlyEntry_eq_ok honly
    have hentry : (k,v) ∈ [(k,v)] := List.mem_singleton_self _
    refine Node.Explains.of_part ?_ (.item hitem (.self _))
    rcases hfinds with hfinds | hfinds
    · exact (ih _ hfinds).of_part (.key hentry (.self _))
    · exact (ih _ hfinds).of_part (.value hentry (.self _))

theorem explains_of_finds {node : Node} (h : (within bound node).Finds f) : node.Explains f := by
  induction bound generalizing node with
  | zero => exact .inl (finds_fault.mp h)
  | succ bound ih =>
    replace ih : ∀ node, (within bound node).Finds f → node.Explains f := fun _ => ih
    -- the cases are those of the tag and the kind of the node
    unfold within at h
    dsimp only at h
    split at h
    · exact explains_of_items ih h
    · exact explains_of_pairs ih h
    · exact explains_of_pairs ih h
    · exact .inl (finds_unreadable.mp h)
    · exact .inl (finds_unreadable.mp h)
    · exact .inl (finds_unreadable.mp h)
    · exact explains_of_mapped ih h
    · exact explains_of_mapped ih (finds_members.mp h)
    · rename_i tag entries htag
      obtain rfl : tag = .time := htag
      obtain rfl := finds_fault.mp h
      split
      · exact .inr ⟨_,.self _,.mappedTime ‹_›⟩
      · exact .inl rfl
    · exact explains_of_scalarText h ‹_›

end Within

end Reading

/-- A value that cannot be made of a node has a wrong form, or a part of the node is a misfit. -/
theorem explains_of_value {node : Node} {fault : Fault} (h : node.value = .error fault) :
    node.Explains fault := by
  unfold Node.value at h
  dsimp only at h
  split at h
  · obtain rfl := Except.error.inj h
    exact Reading.explains_of_finds (Faults.mem_of_first? ‹_›)
  · cases h

end TypedResources.Yaml

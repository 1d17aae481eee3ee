import Mathlib.Data.List.Nodup
import TypedResources.Discovery.Tree

/-! What lies below a directory tree. The items of a directory have different names, in a tree that is
built up from nothing and in every tree that a path leads to, so no path is listed twice. -/
namespace TypedResources
namespace Tree

inductive Holds : Tree → List String → Prop
  | item {items : List (String × Tree)} {name : String} {tree : Tree}
    (hitem : (name,tree) ∈ items) : Holds (directory items) [name]
  | inner {items : List (String × Tree)} {name : String} {tree : Tree} {path : List String}
    (hitem : (name,tree) ∈ items) (hpath : Holds tree path) : Holds (directory items) (name :: path)

theorem not_holds_file (bytes : ByteArray) (path : List String) : ¬ (file bytes).Holds path := nofun

theorem Holds.ne_nil {tree : Tree} {path : List String} (h : tree.Holds path) : path ≠ [] := by
  cases h <;> exact List.cons_ne_nil _ _

theorem holds_nil (path : List String) : ¬ (directory []).Holds path := by
  rintro (hitem | ⟨hitem,-⟩) <;> cases hitem

theorem holds_cons_iff (name : String) (tree : Tree) (rest : List (String × Tree))
    (path : List String) : (directory ((name,tree) :: rest)).Holds path ↔
      path = [name] ∨ (∃ below, tree.Holds below ∧ path = name :: below) ∨
        (directory rest).Holds path := by
  constructor
  · rintro (hitem | ⟨hitem,hpath⟩)
    · cases hitem with
      | head => exact .inl rfl
      | tail _ hitem => exact .inr (.inr (.item hitem))
    · cases hitem with
      | head => exact .inr (.inl ⟨_,hpath,rfl⟩)
      | tail _ hitem => exact .inr (.inr (.inner hitem hpath))
  · rintro (rfl | ⟨below,hbelow,rfl⟩ | h)
    · exact .item List.mem_cons_self
    · exact .inner List.mem_cons_self hbelow
    · cases h with
      | item hitem => exact .item (List.mem_cons_of_mem _ hitem)
      | inner hitem hpath => exact .inner (List.mem_cons_of_mem _ hitem) hpath

mutual

/-- The paths of a tree are those that go down from it. -/
theorem mem_paths_iff (tree : Tree) (path : List String) :
    path ∈ tree.paths ↔ tree.Holds path := by
  match tree with
  | file bytes => simp [paths,not_holds_file]
  | directory items => rw [paths,mem_pathsOfAll_iff items path]

theorem mem_pathsOfAll_iff (items : List (String × Tree)) (path : List String) :
    path ∈ pathsOfAll items ↔ (directory items).Holds path := by
  match items with
  | [] => simp [pathsOfAll,holds_nil]
  | (name,tree) :: rest =>
    have hbelow : path ∈ (paths tree).map (name :: ·) ↔
        ∃ below, tree.Holds below ∧ path = name :: below := by
      simp only [List.mem_map,mem_paths_iff tree,eq_comm]
    rw [pathsOfAll,List.mem_append,List.mem_cons,hbelow,mem_pathsOfAll_iff rest path,
      holds_cons_iff,or_assoc]

end

/-- A text that can stand between the slashes of a path. -/
def IsName (name : String) : Prop := name ≠ "" ∧ name ≠ "." ∧ '/' ∉ name.toList

instance (name : String) : Decidable (IsName name) :=
  inferInstanceAs (Decidable (name ≠ "" ∧ name ≠ "." ∧ '/' ∉ name.toList))

/-- In every directory the items have different names, which can stand between slashes. -/
inductive Proper : Tree → Prop
  | ofFile (bytes : ByteArray) : Proper (file bytes)
  | ofItems {items : List (String × Tree)} (hdistinct : (items.map (·.1)).Nodup)
    (hname : ∀ name tree, (name,tree) ∈ items → IsName name)
    (hinner : ∀ name tree, (name,tree) ∈ items → Proper tree) : Proper (directory items)

theorem isName_of_holds {tree : Tree} (h : tree.Proper) {path : List String}
    (hpath : tree.Holds path) : ∀ name ∈ path, IsName name := by
  induction hpath with
  | item hitem =>
    obtain _ | ⟨-,hname,-⟩ := h
    simpa using hname _ _ hitem
  | inner hitem _ ih =>
    obtain _ | ⟨-,hname,hinner⟩ := h
    exact List.forall_mem_cons.mpr ⟨hname _ _ hitem,ih (hinner _ _ hitem)⟩

/-- What a directory lists are the paths of its items, one item after the other. -/
theorem nodup_pathsOfAll {items : List (String × Tree)} (hdistinct : (items.map (·.1)).Nodup)
    (hinner : ∀ name tree, (name,tree) ∈ items → tree.paths.Nodup) :
    (pathsOfAll items).Nodup := by
  induction items with
  | nil => exact List.nodup_nil
  | cons item rest ih =>
    obtain ⟨name,tree⟩ := item
    obtain ⟨hnew,hrest⟩ := List.nodup_cons.mp hdistinct
    have hbelow : ([name] :: (paths tree).map (name :: ·)).Nodup := by
      refine List.nodup_cons.mpr ⟨?_,?_⟩
      · simpa [mem_paths_iff] using fun h : tree.Holds [] => h.ne_nil rfl
      · exact (hinner name tree List.mem_cons_self).map List.cons_injective
    rw [pathsOfAll,List.nodup_append']
    refine ⟨hbelow,ih hrest fun name tree h => hinner name tree (List.mem_cons_of_mem _ h),?_⟩
    -- the paths of the first item begin with its name, and no other item has that name
    intro path hpath hother
    have hfirst : ∃ below, path = name :: below := by
      rcases List.mem_cons.mp hpath with rfl | hpath
      · exact ⟨[],rfl⟩
      · obtain ⟨below,-,rfl⟩ := List.mem_map.mp hpath
        exact ⟨below,rfl⟩
    obtain ⟨below,rfl⟩ := hfirst
    rw [mem_pathsOfAll_iff] at hother
    cases hother with
    | item hitem => exact hnew (List.mem_map.mpr ⟨_,hitem,rfl⟩)
    | inner hitem _ => exact hnew (List.mem_map.mpr ⟨_,hitem,rfl⟩)

theorem nodup_paths {tree : Tree} (h : tree.Proper) : tree.paths.Nodup := by
  induction h with
  | ofFile bytes => exact List.nodup_nil
  | ofItems hdistinct _ _ ih => exact nodup_pathsOfAll hdistinct ih

theorem mem_of_lookup {items : List (String × Tree)} {name : String} {tree : Tree}
    (h : items.lookup name = some tree) : (name,tree) ∈ items := by
  obtain ⟨front,back,rfl,-⟩ := List.lookup_eq_some_iff.mp h
  simp

theorem Proper.of_lookup {items : List (String × Tree)} (h : (directory items).Proper)
    {name : String} {tree : Tree} (hlookup : items.lookup name = some tree) :
    IsName name ∧ tree.Proper := by
  obtain _ | ⟨-,hname,hinner⟩ := h
  have hitem := mem_of_lookup hlookup
  exact ⟨hname _ _ hitem,hinner _ _ hitem⟩

/-- Steps down and up keep within the tree. -/
theorem proper_followFrom? {above : List Tree} (habove : ∀ tree ∈ above, tree.Proper) {tree : Tree}
    (h : tree.Proper) {path : List String} {found : Tree}
    (hfound : followFrom? above tree path = some found) : found.Proper := by
  induction path generalizing above tree with
  | nil => exact Option.some.inj hfound ▸ h
  | cons name path ih =>
    cases tree with
    | file bytes => cases hfound
    | directory items =>
      unfold followFrom? at hfound
      dsimp only at hfound
      split at hfound
      · cases above with
        | nil => cases hfound
        | cons parent others =>
          obtain ⟨hparent,hothers⟩ := List.forall_mem_cons.mp habove
          exact ih hothers hparent hfound
      · obtain ⟨inner,hlookup,hfound⟩ := Option.bind_eq_some_iff.mp hfound
        exact ih (List.forall_mem_cons.mpr ⟨h,habove⟩) (h.of_lookup hlookup).2 hfound

theorem Proper.follow? {tree : Tree} (h : tree.Proper) {path : List String} {found : Tree}
    (hfound : tree.follow? path = some found) : found.Proper :=
  proper_followFrom? (List.forall_mem_nil _) h hfound

theorem mem_put {name n : String} {inner t : Tree} {items : List (String × Tree)}
    (h : (n,t) ∈ put name inner items) : (n = name ∧ t = inner) ∨ (n,t) ∈ items := by
  unfold put at h
  split at h
  · obtain ⟨⟨n',t'⟩,hitem,heq⟩ := List.mem_map.mp h
    dsimp only at heq
    split at heq <;> obtain ⟨rfl,rfl⟩ := Prod.mk.inj heq
    · rename_i hname
      exact .inl ⟨hname,rfl⟩
    · exact .inr hitem
  · simpa [or_comm] using h

/-- An item is put in the place of the one of its name. -/
theorem nodup_put {items : List (String × Tree)} (h : (items.map (·.1)).Nodup) (name : String)
    (inner : Tree) : ((put name inner items).map (·.1)).Nodup := by
  unfold put
  split
  · rw [List.map_map,List.map_congr_left (g := (·.1))]
    · exact h
    · intro item _
      dsimp only [Function.comp]
      split <;> rfl
  · rename_i hnew
    have hnew' : name ∉ items.map (·.1) := by simpa using hnew
    rw [List.map_append,List.map_singleton,List.nodup_append']
    exact ⟨h,List.nodup_singleton _,by simpa using hnew'⟩

theorem proper_empty : empty.Proper := .ofItems List.nodup_nil nofun nofun

section Changes

variable {tree : Tree} (h : tree.Proper)
include h

theorem Proper.items : (directory tree.items).Proper := by
  cases h with
  | ofFile bytes => exact proper_empty
  | ofItems hdistinct hname hinner => exact .ofItems hdistinct hname hinner

theorem Proper.lookup_getD (name : String) : ((tree.items.lookup name).getD empty).Proper := by
  cases hlookup : tree.items.lookup name with
  | none => exact proper_empty
  | some inner => exact (h.items.of_lookup hlookup).2

theorem Proper.put {name : String} (hname : IsName name) {inner : Tree} (hinner : inner.Proper) :
    (directory (Tree.put name inner tree.items)).Proper := by
  obtain _ | ⟨hdistinct,hnames,htrees⟩ := h.items
  refine .ofItems (nodup_put hdistinct name inner) (fun n t hitem => ?_) fun n t hitem => ?_
  · rcases mem_put hitem with ⟨rfl,-⟩ | hitem
    · exact hname
    · exact hnames _ _ hitem
  · rcases mem_put hitem with ⟨-,rfl⟩ | hitem
    · exact hinner
    · exact htrees _ _ hitem

/-- Writing a file keeps names apart. -/
theorem Proper.write (bytes : ByteArray) {path : List String} (hpath : ∀ name ∈ path, IsName name) :
    (Tree.write bytes path tree).Proper := by
  induction path generalizing tree with
  | nil => exact .ofFile bytes
  | cons name path ih =>
    obtain ⟨hname,hpath⟩ := List.forall_mem_cons.mp hpath
    exact h.put hname (ih (h.lookup_getD name) hpath)

theorem Proper.makeDirectory {path : List String} (hpath : ∀ name ∈ path, IsName name) :
    (Tree.makeDirectory path tree).Proper := by
  induction path generalizing tree with
  | nil => exact h
  | cons name path ih =>
    obtain ⟨hname,hpath⟩ := List.forall_mem_cons.mp hpath
    exact h.put hname (ih (h.lookup_getD name) hpath)

theorem Proper.filter (p : String × Tree → Bool) : (directory (tree.items.filter p)).Proper := by
  obtain _ | ⟨hdistinct,hnames,htrees⟩ := h.items
  exact .ofItems (hdistinct.sublist (List.filter_sublist.map _))
    (fun n t hitem => hnames n t (List.mem_of_mem_filter hitem))
    fun n t hitem => htrees n t (List.mem_of_mem_filter hitem)

theorem Proper.delete (path : List String) : (Tree.delete path tree).Proper := by
  fun_induction Tree.delete path tree with
  | case1 => exact h
  | case2 => exact h.filter _
  | case3 tree name path _ inner hlookup ih =>
    obtain ⟨hname,hinner⟩ := h.items.of_lookup hlookup
    exact h.put hname (ih hinner)
  | case4 => exact h

end Changes

end Tree
end TypedResources

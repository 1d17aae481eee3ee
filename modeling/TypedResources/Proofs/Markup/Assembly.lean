import TypedResources.Proofs.Markup.Meaning

/-! Putting the tokens of written content together. Content whose names are bound becomes its nodes
unless its elements are nested too deep; then it is refused. -/
namespace TypedResources
namespace Markup
namespace Building

def addAll (b : Building) (nodes : List Node) : Building := nodes.foldl add b

def enter (b : Building) (e : OpenElement) : Building :=
  { b with openElements := e :: b.openElements }

@[simp] theorem addAll_nil (b : Building) : b.addAll [] = b := rfl

@[simp] theorem addAll_cons (b : Building) (node : Node) (nodes : List Node) :
    b.addAll (node :: nodes) = (b.add node).addAll nodes := rfl

theorem addAll_append (b : Building) (xs ys : List Node) :
    b.addAll (xs ++ ys) = (b.addAll xs).addAll ys := List.foldl_append

@[simp] theorem scope_add (b : Building) (node : Node) : (b.add node).scope = b.scope := by
  rw [add]
  split
  · rename_i hnone
    simp [scope,hnone]
  · rename_i hsome
    simp [scope,hsome]

@[simp] theorem length_openElements_add (b : Building) (node : Node) :
    (b.add node).openElements.length = b.openElements.length := by
  rw [add]
  split
  · rfl
  · rename_i hsome
    simp [hsome]

@[simp] theorem scope_addAll (b : Building) (nodes : List Node) :
    (b.addAll nodes).scope = b.scope := by
  induction nodes generalizing b with
  | nil => rfl
  | cons node rest ih => rw [addAll_cons,ih,scope_add]

@[simp] theorem length_openElements_addAll (b : Building) (nodes : List Node) :
    (b.addAll nodes).openElements.length = b.openElements.length := by
  induction nodes generalizing b with
  | nil => rfl
  | cons node rest ih => rw [addAll_cons,ih,length_openElements_add]

@[simp] theorem scope_enter (b : Building) (e : OpenElement) : (b.enter e).scope = e.scope := rfl

@[simp] theorem length_openElements_enter (b : Building) (e : OpenElement) :
    (b.enter e).openElements.length = b.openElements.length + 1 := rfl

/-- An element that is closed has the nodes that were added inside. -/
theorem close?_addAll (b : Building) (e : OpenElement) (nodes : List Node) :
    ((b.enter e).addAll nodes).close? e.written =
      some (b.add (.element e.name e.attributes (e.children.reverse ++ nodes))) := by
  induction nodes generalizing e with
  | nil =>
    rw [addAll_nil,List.append_nil]
    exact if_pos rfl
  | cons node rest ih =>
    have hadd : (b.enter e).add node = b.enter { e with children := node :: e.children } := rfl
    have hnext := ih { e with children := node :: e.children }
    rw [List.reverse_cons,List.append_assoc] at hnext
    rw [addAll_cons,hadd]
    exact hnext

theorem addAll_outside (finished nodes : List Node) :
    addAll ⟨[],finished⟩ nodes = ⟨[],nodes.reverse ++ finished⟩ := by
  induction nodes generalizing finished with
  | nil => rfl
  | cons node rest ih =>
    rw [addAll_cons,add,ih]
    simp

end Building

namespace Check

variable {α β : Type}

theorem bind_of_runs {check : Check α} {p p' : Progress} {a : α} (h : Runs check p a p')
    (next : α → Check β) : (check >>= next) p = next a p' := by
  have hbind : (check >>= next) p = (check p).bind fun r => next r.1 r.2 := rfl
  rw [hbind,show check p = some (a,p') from h,Option.bind_some]

theorem bind_of_none {check : Check α} {p : Progress} (h : check p = none) (next : α → Check β) :
    (check >>= next) p = none := by
  have hbind : (check >>= next) p = (check p).bind fun r => next r.1 r.2 := rfl
  rw [hbind,h,Option.bind_none]

end Check

namespace Written

open Check

def Tag.entered (t : Tag) (outer : Scope) : OpenElement :=
  ⟨t.name.shown,t.expanded outer,t.shown outer,t.scope outer,[]⟩

/-- Content without tags adds its nodes. -/
theorem build_atom {p : Progress} (hp : Quiet p) (depth entityDepth : Nat) (a : Atom) (b : Building)
    (more : List Token) :
    build depth 0 (contentReference entityDepth) b (a.token :: more) p =
      build depth 0 (contentReference entityDepth) (b.addAll a.nodes) more p := by
  cases a with
  | text cs proper => rw [Atom.token,build]; rfl
  | cdata cs closes => rw [Atom.token,build]; rfl
  | comment cs closes => rw [Atom.token,build]; rfl
  | instruction target body proper apart closes =>
    rw [Atom.token,build]
    exact bind_of_runs (runs_instruction hp proper) _
  | reference r =>
    cases r with
    | decimal digits c codes => rw [Atom.token,Reference.piece,build]; rfl
    | hexadecimal digits c codes => rw [Atom.token,Reference.piece,build]; rfl
    | entity name c known =>
      have hnode : Runs (contentReference entityDepth (0 + b.openElements.length) name) p
          (.text (String.singleton c)) p := by
        rw [contentReference,known]
        rfl
      rw [Atom.token,Reference.piece,build]
      exact bind_of_runs hnode _

/-- A tag that is not too deep opens its element. -/
theorem build_opening {p : Progress} (hp : Quiet p) (depth entityDepth : Nat) {t : Tag}
    {b : Building} (hdepth : b.openElements.length < maxElementDepth) (h : t.Bound b.scope)
    (hids : p.Admits t.identities) (more : List Token) :
    build depth 0 (contentReference entityDepth) b (t.opening false :: more) p =
      build depth 0 (contentReference entityDepth)
        (b.enter (t.entered b.scope)) more
        (p.identifying t.identities) := by
  have hroom : decide (0 + b.openElements.length < maxElementDepth) = true := by simpa using hdepth
  rw [Tag.opening,build,bind_of_runs (runs_require hroom p),
    bind_of_runs (runs_openElement hp depth h hids)]
  rfl

/-- The tag of an empty element that is not too deep adds the element. -/
theorem build_empty {p : Progress} (hp : Quiet p) (depth entityDepth : Nat) {t : Tag}
    {b : Building} (hdepth : b.openElements.length < maxElementDepth) (h : t.Bound b.scope)
    (hids : p.Admits t.identities) (more : List Token) :
    build depth 0 (contentReference entityDepth) b (t.opening true :: more) p =
      build depth 0 (contentReference entityDepth)
        (b.add (.element (t.expanded b.scope) (t.shown b.scope) [])) more
        (p.identifying t.identities) := by
  have hroom : decide (0 + b.openElements.length < maxElementDepth) = true := by simpa using hdepth
  rw [Tag.opening,build,bind_of_runs (runs_require hroom p),
    bind_of_runs (runs_openElement hp depth h hids)]
  rfl

theorem build_closing (depth entityDepth : Nat) (p : Progress) (b : Building) (t : Tag)
    (children : List Node) (more : List Token) :
    build depth 0 (contentReference entityDepth) ((b.enter (t.entered b.scope)).addAll children)
        (.closing t.name.shown :: more) p =
      build depth 0 (contentReference entityDepth)
        (b.add (.element (t.expanded b.scope) (t.shown b.scope) children)) more p := by
  have hclose := b.close?_addAll (t.entered b.scope) children
  rw [Tag.entered] at hclose
  rw [build,Tag.entered,hclose]
  exact bind_of_runs (runs_pure _ p) _

/-- A tag that is too deep is refused. -/
theorem build_too_deep (depth entityDepth : Nat) (p : Progress) (t : Tag) (closed : Bool)
    {b : Building} (hdepth : maxElementDepth ≤ b.openElements.length) (more : List Token) :
    build depth 0 (contentReference entityDepth) b (t.opening closed :: more) p = none := by
  have hroom : decide (0 + b.openElements.length < maxElementDepth) = false := by simpa using hdepth
  rw [Tag.opening,build,hroom]
  exact bind_of_none rfl _

/-- Content adds its nodes, unless it is too deep: then it is refused. -/
theorem build_content {c : Content} (depth entityDepth : Nat) {p : Progress} (hp : Quiet p)
    {b : Building} (hopen : b.openElements.length ≤ maxElementDepth) (hbound : c.Bound b.scope)
    (hids : p.Admits c.identities) (more : List Token) :
    build depth 0 (contentReference entityDepth) b (c.tokens ++ more) p =
      if b.openElements.length + c.height ≤ maxElementDepth then
        build depth 0 (contentReference entityDepth) (b.addAll (c.nodes b.scope)) more
          (p.identifying c.identities)
      else none := by
  induction c generalizing p b more with
  | done => rw [Content.height,Nat.add_zero,if_pos hopen]; rfl
  | atom a rest ih =>
    rw [Content.Bound] at hbound
    have hrest := ih hp (b := b.addAll a.nodes) (by simpa using hopen) (by simpa using hbound)
      hids more
    rw [Building.scope_addAll,Building.length_openElements_addAll] at hrest
    rw [Content.tokens,List.cons_append,build_atom hp,hrest,Content.nodes,Building.addAll_append]
    rfl
  | empty t rest ih =>
    rw [Content.tokens,List.cons_append,Content.height]
    rcases Nat.lt_or_ge b.openElements.length maxElementDepth with hlt | hge
    · have hrest := ih (hp.identifying t.identities)
        (b := b.add (.element (t.expanded b.scope) (t.shown b.scope) [])) (by simpa using hopen)
        (by simpa using hbound.2) hids.split.2 more
      rw [Building.scope_add,Building.length_openElements_add] at hrest
      rw [build_empty hp depth entityDepth hlt hbound.1 hids.split.1,hrest,Content.identities,
        Progress.identifying_append]
      refine if_congr ?_ rfl rfl
      omega
    · rw [build_too_deep depth entityDepth p t true hge,if_neg (by omega)]
  | element t children tail blank rest ihchildren ih =>
    rw [Content.tokens,List.cons_append,List.append_assoc,List.cons_append,Content.height]
    rcases Nat.lt_or_ge b.openElements.length maxElementDepth with hlt | hge
    · have hquiet := hp.identifying t.identities
      have hinner := ihchildren hquiet (b := b.enter (t.entered b.scope)) hlt hbound.2.1
        hids.split.2.split.1 (.closing t.name.shown :: (rest.tokens ++ more))
      rw [Building.scope_enter,Building.length_openElements_enter] at hinner
      rw [build_opening hp depth entityDepth hlt hbound.1 hids.split.1,hinner]
      by_cases hshallow : b.openElements.length + 1 + children.height ≤ maxElementDepth
      · have hrest := ih (hquiet.identifying children.identities)
          (b := b.add (.element (t.expanded b.scope) (t.shown b.scope)
            (children.nodes (t.scope b.scope))))
          (by simpa using hopen) (by simpa using hbound.2.2) hids.split.2.split.2 more
        rw [Building.scope_add,Building.length_openElements_add] at hrest
        have hclosing := build_closing depth entityDepth
          ((p.identifying t.identities).identifying children.identities) b t
          (children.nodes (t.scope b.scope)) (rest.tokens ++ more)
        have hscope : (t.entered b.scope).scope = t.scope b.scope := rfl
        rw [if_pos hshallow,hscope,hclosing,hrest,Content.identities,
          Progress.identifying_append,Progress.identifying_append]
        refine if_congr ?_ rfl rfl
        omega
      · rw [if_neg hshallow,if_neg (by omega)]
    · rw [build_too_deep depth entityDepth p t false hge,if_neg (by omega)]

end Written
end Markup
end TypedResources

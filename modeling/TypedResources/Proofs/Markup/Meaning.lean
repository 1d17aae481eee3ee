import Mathlib.Data.List.Nodup
import Mathlib.Data.List.TakeWhile
import TypedResources.Proofs.Markup.Lexing

/-! What written content means: the scopes of its tags, its nodes, and the identities in it. A tag
whose names are bound in its scope is opened without a fault. -/
namespace TypedResources
namespace Markup

namespace Written

namespace Attribute

def isBinding (a : Attribute) : Bool :=
  a.name.qualified.qualifier = some "xmlns" ||
    (a.name.qualified.qualifier = none && a.name.qualified.localName = "xmlns")

def bound (a : Attribute) : Option String :=
  if a.name.qualified.qualifier = none then none else some a.name.qualified.localName

/-- What a binding adds to the scope. The qualifier xml is bound from the start. -/
def binding? (a : Attribute) : Option (Option String × String) :=
  if a.isBinding && a.bound != some "xml" then some (a.bound,a.value) else none

/-- The name in its namespace. An attribute without a qualifier is in none. -/
def expanded (scope : Scope) (a : Attribute) : ExpandedName :=
  ⟨a.name.qualified.qualifier.bind fun q => Scope.find scope (some q),a.name.qualified.localName⟩

def identity (a : Attribute) : List String :=
  if a.name.qualified.qualifier = some "xml" && a.name.qualified.localName = "id" && a.value ≠ ""
  then [a.value] else []

end Attribute

/-- What a qualifier, or the default namespace, may be bound to. -/
def Admissible (qualifier : Option String) (space : String) : Prop :=
  if qualifier = some "xml" then space = Scope.xmlSpace
  else
    (qualifier = none ∧ space = "") ∨
      (qualifier ≠ some "xmlns" ∧ space ≠ "" ∧ Uri.isReference space.toList = true ∧
        space ≠ Scope.xmlSpace ∧ space ≠ Scope.bindingSpace)

namespace Tag

/-- The scope inside a tag. Of its bindings the last comes first. -/
def scope (t : Tag) (outer : Scope) : Scope :=
  (t.attributes.filterMap (·.binding?)).reverse ++ outer

def plain (t : Tag) : List Attribute := t.attributes.filter (!·.isBinding)

def identities (t : Tag) : List String := t.plain.flatMap (·.identity)

def expanded (t : Tag) (outer : Scope) : ExpandedName :=
  ⟨Scope.find (t.scope outer) t.name.qualified.qualifier,t.name.qualified.localName⟩

def shown (t : Tag) (outer : Scope) : List Markup.Attribute :=
  t.plain.map fun a => ⟨a.expanded (t.scope outer),a.value⟩

/-- The rules for the names of a tag in a scope. -/
structure Bound (t : Tag) (outer : Scope) : Prop where
  name : ∀ q ∈ t.name.qualified.qualifier, (Scope.find (t.scope outer) (some q)).isSome
  attributes : ∀ a ∈ t.plain, ∀ q ∈ a.name.qualified.qualifier,
    (Scope.find (t.scope outer) (some q)).isSome
  distinct : (t.attributes.map (·.name.write)).Nodup
  expanded : (t.plain.map (·.expanded (t.scope outer))).Nodup
  admissible : ∀ a ∈ t.attributes, a.isBinding = true → Admissible a.bound a.value
  identities : ∀ i ∈ t.identities, isPlainName i.toList = true

end Tag

def Atom.nodes : Atom → List Node
  | .text cs _ => [.text (String.ofList cs)]
  | .cdata cs _ => [.text (String.ofList cs)]
  | .reference r => [.text (String.singleton r.char)]
  | .comment _ _ => []
  | .instruction _ _ _ _ _ => []

theorem Atom.exists_text_of_mem {a : Atom} {n : Node} (h : n ∈ a.nodes) :
    ∃ text, n = .text text := by
  cases a with
  | comment cs closes => cases h
  | instruction target body proper apart closes => cases h
  | text cs proper => exact ⟨_,List.mem_singleton.mp h⟩
  | cdata cs closes => exact ⟨_,List.mem_singleton.mp h⟩
  | reference r => exact ⟨_,List.mem_singleton.mp h⟩

namespace Content

def nodes (scope : Scope) : Content → List Node
  | done => []
  | atom a rest => a.nodes ++ rest.nodes scope
  | empty t rest => .element (t.expanded scope) (t.shown scope) [] :: rest.nodes scope
  | element t children _ _ rest =>
    .element (t.expanded scope) (t.shown scope) (children.nodes (t.scope scope)) :: rest.nodes scope

def Bound (scope : Scope) : Content → Prop
  | done => True
  | atom _ rest => rest.Bound scope
  | empty t rest => t.Bound scope ∧ rest.Bound scope
  | element t children _ _ rest =>
    t.Bound scope ∧ children.Bound (t.scope scope) ∧ rest.Bound scope

def identities : Content → List String
  | done => []
  | atom _ rest => rest.identities
  | empty t rest => t.identities ++ rest.identities
  | element t children _ _ rest => t.identities ++ (children.identities ++ rest.identities)

theorem nodes_append (scope : Scope) (c more : Content) :
    (c.append more).nodes scope = c.nodes scope ++ more.nodes scope := by
  induction c with
  | done => rfl
  | atom a rest ih => rw [append,nodes,nodes,ih,List.append_assoc]
  | empty t rest ih => rw [append,nodes,nodes,ih,List.cons_append]
  | element t children tail blank rest _ ih => rw [append,nodes,nodes,ih,List.cons_append]

theorem identities_append (c more : Content) :
    (c.append more).identities = c.identities ++ more.identities := by
  induction c with
  | done => rfl
  | atom a rest ih => exact ih
  | empty t rest ih => rw [append,identities,identities,ih,List.append_assoc]
  | element t children tail blank rest _ ih => simp [append,identities,ih]

theorem Bound.append {scope : Scope} {c more : Content} (hc : c.Bound scope)
    (hmore : more.Bound scope) : (c.append more).Bound scope := by
  induction c with
  | done => exact hmore
  | atom a rest ih => exact ih hc
  | empty t rest ih => exact ⟨hc.1,ih hc.2⟩
  | element t children tail blank rest _ ih => exact ⟨hc.1,hc.2.1,ih hc.2.2⟩

/-- Content without tags obeys the rules in every scope, and is seen as text only. -/
theorem bound_of_flat (c : Content) (h : c.height = 0) (scope : Scope) :
    c.Bound scope ∧ c.identities = [] ∧ ∀ n ∈ c.nodes scope, ∃ text, n = .text text := by
  induction c with
  | done => exact ⟨trivial,rfl,fun n hn => by simp [nodes] at hn⟩
  | atom a rest ih =>
    obtain ⟨hbound,hids,htexts⟩ := ih h
    refine ⟨hbound,hids,fun n hn => ?_⟩
    rw [nodes,List.mem_append] at hn
    exact hn.elim Atom.exists_text_of_mem (htexts n)
  | empty t rest => rw [height] at h; omega
  | element t children tail blank rest => rw [height] at h; omega

end Content

namespace Tag

structure IsPlain (t : Tag) : Prop where
  name : t.name.qualifier = none
  attributes : ∀ a ∈ t.attributes, a.name.qualifier = none ∧ a.name.localName ≠ "xmlns".toList
  distinct : (t.attributes.map (·.name.write)).Nodup

namespace IsPlain

variable {t : Tag}

theorem isBinding (h : t.IsPlain) : ∀ a ∈ t.attributes, a.isBinding = false := by
  intro a ha
  obtain ⟨hnone,hne⟩ := h.attributes a ha
  have hlocal : String.ofList a.name.localName ≠ "xmlns" := by simpa [String.ext_iff] using hne
  simp [Attribute.isBinding,Name.qualified,hnone,hlocal]

theorem scope_eq (h : t.IsPlain) (outer : Scope) : t.scope outer = outer := by
  have hnone : t.attributes.filterMap (·.binding?) = [] :=
    List.filterMap_eq_nil_iff.mpr fun a ha => by simp [Attribute.binding?,h.isBinding a ha]
  rw [scope,hnone,List.reverse_nil,List.nil_append]

theorem plain_eq (h : t.IsPlain) : t.plain = t.attributes :=
  List.filter_eq_self.mpr fun a ha => by simp [h.isBinding a ha]

theorem identities_eq (h : t.IsPlain) : t.identities = [] := by
  rw [identities,h.plain_eq]
  refine List.flatMap_eq_nil_iff.mpr fun a ha => ?_
  simp [Attribute.identity,Name.qualified,(h.attributes a ha).1]

theorem shown_eq (h : t.IsPlain) (outer : Scope) :
    t.shown outer = t.attributes.map fun a => ⟨⟨none,a.name.shown⟩,a.value⟩ := by
  rw [shown,h.plain_eq]
  refine List.map_congr_left fun a ha => ?_
  have hnone := (h.attributes a ha).1
  simp [Attribute.expanded,Name.qualified,Name.shown,Name.write,joined,hnone]

theorem expanded_eq (h : t.IsPlain) : t.expanded [] = ⟨none,t.name.shown⟩ := by
  simp [expanded,h.scope_eq,Name.qualified,Name.shown,Name.write,joined,h.name,Scope.find]

theorem bound (h : t.IsPlain) (outer : Scope) : t.Bound outer where
  name q hq := by simp [Name.qualified,h.name] at hq
  attributes a ha q hq := by
    rw [h.plain_eq] at ha
    simp [Name.qualified,(h.attributes a ha).1] at hq
  distinct := h.distinct
  expanded := by
    rw [h.plain_eq]
    refine List.pairwise_map.mpr ((List.pairwise_map.mp h.distinct).imp_of_mem ?_)
    intro a b ha hb hne heq
    have hlocal : a.name.localName = b.name.localName :=
      String.ofList_injective (congrArg (·.localName) heq)
    simp [Name.write,joined,(h.attributes a ha).1,(h.attributes b hb).1,hlocal] at hne
  admissible a ha hbinding := by simp [h.isBinding a ha] at hbinding
  identities i hi := by simp [h.identities_eq] at hi

end IsPlain
end Tag

end Written

/-- The character that a piece stands for without any declaration. -/
def Piece.char? : Piece → Option Char
  | .plain c => some c
  | .coded c => some c
  | .entity name => predefined? name

/-- The progress after the identities were found, in this order. -/
def Progress.identifying (p : Progress) (ids : List String) : Progress :=
  { p with identities := ids.reverse ++ p.identities }

theorem Progress.identifying_append (p : Progress) (xs ys : List String) :
    p.identifying (xs ++ ys) = (p.identifying xs).identifying ys := by
  simp [identifying]

def Progress.Admits (p : Progress) (ids : List String) : Prop :=
  (p.identities.reverse ++ ids).Nodup

theorem Progress.Admits.split {p : Progress} {xs ys : List String} (h : p.Admits (xs ++ ys)) :
    p.Admits xs ∧ (p.identifying xs).Admits ys := by
  rw [Admits,← List.append_assoc] at h
  refine ⟨(List.nodup_append.mp h).1,?_⟩
  rw [Admits,identifying,List.reverse_append,List.reverse_reverse]
  exact h

namespace Check

variable {α β : Type}

/-- The check gives the value and changes the progress so. -/
def Runs (check : Check α) (p : Progress) (a : α) (p' : Progress) : Prop := check p = some (a,p')

theorem runs_pure (a : α) (p : Progress) : Runs (pure a) p a p := rfl

theorem runs_bind {check : Check α} {next : α → Check β} {p p' p'' : Progress} {a : α} {b : β}
    (h : Runs check p a p') (hnext : Runs (next a) p' b p'') : Runs (check >>= next) p b p'' :=
  Option.bind_eq_some_iff.mpr ⟨(a,p'),h,hnext⟩

theorem runs_require {condition : Bool} (h : condition = true) (p : Progress) :
    Runs (require condition) p () p := by
  rw [require,if_pos h]
  rfl

theorem runs_ofOption {o : Option α} {a : α} (h : o = some a) (p : Progress) :
    Runs (ofOption o) p a p := by
  rw [h]
  rfl

theorem runs_faultIf {condition : Bool} (h : condition = false) (p : Progress) :
    Runs (faultIf condition) p () p := by
  rw [faultIf,h,if_neg Bool.false_ne_true]
  rfl

theorem runs_ite {condition : Prop} [Decidable condition] {check other : Check α} {p p' : Progress}
    {a : α} (h : Runs check p a p') (hother : Runs other p a p') :
    Runs (if condition then check else other) p a p' := by
  split
  · exact h
  · exact hother

theorem runs_mapM {f : α → Check β} {g : α → β} {p : Progress} {as : List α}
    (h : ∀ a ∈ as, Runs (f a) p (g a) p) : Runs (as.mapM f) p (as.map g) p := by
  induction as with
  | nil => exact runs_pure [] p
  | cons a rest ih =>
    rw [List.mapM_cons]
    refine runs_bind (h a (by simp)) ?_
    exact runs_bind (ih fun x hx => h x (by simp [hx])) (runs_pure _ p)

/-- Progress without rules for attributes and without a fault. -/
structure Quiet (p : Progress) : Prop where
  rules : p.rules = []
  faultless : p.isFaulty = false

theorem Quiet.runs_warn {p : Progress} (h : Quiet p) : Runs warn p () p := by
  obtain ⟨entities,parameters,rules,alone,outside,faulty,identities,spent,allowance⟩ := p
  obtain rfl : faulty = false := h.faultless
  rfl

theorem Quiet.identifying {p : Progress} (h : Quiet p) (ids : List String) :
    Quiet (p.identifying ids) := ⟨h.rules,h.faultless⟩

theorem runs_mapM_identifying {f : α → Check β} {g : α → β} {ids : α → List String} {as : List α}
    (h : ∀ a ∈ as, ∀ p, Quiet p → p.Admits (ids a) → Runs (f a) p (g a) (p.identifying (ids a)))
    {p : Progress} (hp : Quiet p) (hids : p.Admits (as.flatMap ids)) :
    Runs (as.mapM f) p (as.map g) (p.identifying (as.flatMap ids)) := by
  induction as generalizing p with
  | nil => exact runs_pure [] p
  | cons a rest ih =>
    rw [List.flatMap_cons] at hids
    rw [List.mapM_cons,List.flatMap_cons,Progress.identifying_append]
    refine runs_bind (h a (by simp) p hp hids.split.1) ?_
    refine runs_bind (ih (fun x hx => h x (by simp [hx])) (hp.identifying _) hids.split.2) ?_
    exact runs_pure _ _

theorem Quiet.rule? {p : Progress} (h : Quiet p) (element name : String) :
    rule? p element name = none := by
  rw [Check.rule?,h.rules]
  rfl

theorem runs_value (depth : Nat) {pieces : List Piece} {chars : List Char}
    (h : pieces.map (·.char?) = chars.map some) (p : Progress) :
    Runs (value depth pieces) p (String.ofList chars) p := by
  have hparts : ∀ piece ∈ pieces, ∃ c, piece.char? = some c := by
    intro piece hpiece
    have hmem : piece.char? ∈ chars.map some := h ▸ List.mem_map_of_mem hpiece
    obtain ⟨c,-,hc⟩ := List.mem_map.mp hmem
    exact ⟨c,hc.symm⟩
  have hchars : (pieces.map fun piece => [piece.char?.getD ' ']).flatten = chars := by
    have hsame : pieces.map (fun piece => piece.char?.getD ' ') =
        (pieces.map (·.char?)).map (·.getD ' ') := by rw [List.map_map]; rfl
    rw [← List.flatMap_def,← List.map_eq_flatMap,hsame,h,List.map_map]
    exact List.map_id' chars
  rw [← hchars]
  refine runs_bind (runs_mapM fun piece hpiece => ?_) (runs_pure _ p)
  obtain ⟨c,hc⟩ := hparts piece hpiece
  cases piece with
  | plain d => rfl
  | coded d => rfl
  | entity name =>
    have hname : predefined? name = some c := hc
    simp only [Piece.char?,hname]
    rfl

end Check

namespace Written

open Check

def Attribute.pending (a : Attribute) : PendingAttribute :=
  ⟨a.name.qualified.qualifier,a.name.qualified.localName,a.name.shown,
    (a.parts.map (·.piece)).map (·.spaced)⟩

theorem Part.char?_piece {quote : Char} (part : Part quote) :
    part.piece.spaced.char? = some part.char := by
  cases part with
  | plain c free => rfl
  | reference r =>
    cases r with
    | entity name c known => exact known
    | decimal digits c codes => rfl
    | hexadecimal digits c codes => rfl

theorem Attribute.runs_value (a : Attribute) (depth : Nat) (p : Progress) :
    Runs (Check.value depth a.pending.pieces) p a.value p := by
  refine Check.runs_value depth ?_ p
  rw [Attribute.pending,List.map_map,List.map_map,List.map_map]
  exact List.map_congr_left fun part _ => part.char?_piece

theorem splitColon_of_not_mem {cs : List Char} (h : ∀ c ∈ cs, c ≠ ':') :
    QualifiedName.splitColon cs = none := by
  have hnone : cs.dropWhile (· != ':') = [] := List.dropWhile_eq_nil_iff.mpr (by simpa using h)
  rw [QualifiedName.splitColon,hnone]

theorem splitColon_append {cs : List Char} (h : ∀ c ∈ cs, c ≠ ':') (rest : List Char) :
    QualifiedName.splitColon (cs ++ ':' :: rest) = some (cs,rest) := by
  have hcs : ∀ c ∈ cs, (c != ':') = true := by simpa using h
  have hdrop : (cs ++ ':' :: rest).dropWhile (· != ':') = ':' :: rest := by
    rw [List.dropWhile_append_of_pos hcs]
    rfl
  have htake : (cs ++ ':' :: rest).takeWhile (· != ':') = cs := by
    rw [List.takeWhile_append_of_pos hcs]
    simp
  rw [QualifiedName.splitColon,hdrop,htake]

theorem Name.ofText?_write (n : Name) : QualifiedName.ofText? n.write = some n.qualified := by
  have hlocal := splitColon_of_not_mem fun c hc => (n.localPart.all c hc).2
  cases hq : n.qualifier with
  | none => simp only [write,joined,qualified,hq,QualifiedName.ofText?,hlocal]; rfl
  | some q =>
    have hpart := n.qualifierPart q hq
    obtain ⟨c,more,rfl,-,-⟩ := hpart.head
    obtain ⟨d,others,hd,hstart,hcolon⟩ := n.localPart.head
    have hplain : QualifiedName.beginsPlain n.localName = true := by
      simp [QualifiedName.beginsPlain,hd,hstart,hcolon]
    have hsplit := splitColon_append (fun c hc => (hpart.all c hc).2) n.localName
    simp only [write,joined,qualified,hq,QualifiedName.ofText?,hsplit,hplain,hlocal]
    rfl

theorem Attribute.runs_pend {p : Progress} (hp : Quiet p) (element : String) (a : Attribute) :
    Runs (pend element a.raw) p a.pending p := by
  have hname : QualifiedName.ofText? a.raw.name.toList = some a.name.qualified := by
    rw [raw,Name.shown,String.toList_ofList,a.name.ofText?_write]
  refine runs_bind (runs_ofOption hname p) ?_
  refine runs_bind (runs_faultIf rfl p) ?_
  refine runs_bind (a := p) rfl ?_
  rw [hp.rule?]
  have hdone : Runs (pure a.pending : Check PendingAttribute) p a.pending p := rfl
  simp only [Option.map_none,Option.getD_none,Check.normalize]
  exact runs_ite (runs_ite hdone (runs_bind hp.runs_warn hdone)) hdone

theorem runs_admitBinding {p : Progress} (hp : Quiet p) {qualifier : Option String}
    {space : String} (h : Admissible qualifier space) :
    Runs (admitBinding qualifier space) p (qualifier != some "xml") p := by
  unfold Admissible at h
  cases qualifier with
  | none =>
    rw [if_neg (by simp)] at h
    by_cases hempty : space = ""
    · rw [admitBinding,if_pos hempty]
      rfl
    · obtain ⟨-,-,hreference,hxml,hbinding⟩ := h.resolve_left fun hnone => hempty hnone.2
      rw [admitBinding,if_neg hempty,hreference]
      simp only [hxml,hbinding,Bool.not_true,Bool.false_eq_true,if_false,decide_false,
        Bool.or_self]
      exact runs_ite (runs_bind hp.runs_warn (runs_pure true p)) (runs_pure true p)
  | some q =>
    by_cases hq : q = "xml"
    · subst hq
      rw [if_pos rfl] at h
      rw [admitBinding,if_pos rfl]
      exact runs_bind (runs_faultIf (by simp [h]) p) (runs_pure false p)
    · rw [if_neg (by simpa using hq)] at h
      obtain ⟨hname,hempty,hreference,hxml,hbinding⟩ := h.resolve_left (by simp)
      have hname' : q ≠ "xmlns" := fun he => hname (by rw [he])
      have hvalue : (some q != some "xml") = true := by simpa using hq
      rw [admitBinding,if_neg hq,if_neg (by simp [hxml,hname',hbinding,hempty]),hvalue]
      exact runs_bind (runs_faultIf (by rw [hreference]; rfl) p) (runs_pure true p)

theorem isBinding_pending (a : Attribute) : Check.isBinding a.pending = a.isBinding := rfl

theorem boundQualifier_pending (a : Attribute) : boundQualifier a.pending = a.bound := rfl

def BindOnce (attributes : List Attribute) : Prop :=
  attributes.Pairwise fun a b => a.isBinding = true → b.isBinding = true → a.bound ≠ b.bound

theorem runs_bindings {p : Progress} (hp : Quiet p) (depth : Nat) {attributes : List Attribute}
    (hadmissible : ∀ a ∈ attributes, a.isBinding = true → Admissible a.bound a.value)
    (honce : BindOnce attributes) {made : Scope}
    (hnew : ∀ a ∈ attributes, a.isBinding = true → made.lookup a.bound = none) :
    Runs (bindings depth made (attributes.map (·.pending))) p
      ((attributes.filterMap (·.binding?)).reverse ++ made) p := by
  induction attributes generalizing made with
  | nil => exact runs_pure made p
  | cons a rest ih =>
    obtain ⟨hfirst,hrest⟩ := List.pairwise_cons.mp honce
    have hnext := fun {made} => @ih (fun b hb => hadmissible b (by simp [hb])) hrest made
    have hnewRest : ∀ b ∈ rest, b.isBinding = true → made.lookup b.bound = none :=
      fun b hb => hnew b (by simp [hb])
    rw [List.map_cons,bindings,isBinding_pending]
    cases hbinding : a.isBinding with
    | false =>
      rw [List.filterMap_cons_none (by simp [Attribute.binding?,hbinding])]
      exact hnext hnewRest
    | true =>
      have hadmit := runs_admitBinding hp (hadmissible a (by simp) hbinding)
      refine runs_bind (a.runs_value depth p) (runs_bind hadmit ?_)
      cases hxml : a.bound != some "xml" with
      | false =>
        rw [List.filterMap_cons_none (by simp [Attribute.binding?,hbinding,hxml])]
        exact hnext hnewRest
      | true =>
        have hsome : a.binding? = some (a.bound,a.value) := by
          rw [Attribute.binding?,hbinding,hxml]
          rfl
        rw [List.filterMap_cons_some hsome,List.reverse_cons,List.append_assoc]
        have hfree : (made.lookup (boundQualifier a.pending)).isNone = true := by
          rw [boundQualifier_pending,hnew a (by simp) hbinding]
          rfl
        refine runs_bind (runs_require hfree p) ?_
        refine hnext fun b hb hbbinding => ?_
        have hne := (hfirst b hb hbinding hbbinding).symm
        simp only [boundQualifier_pending,List.lookup_cons]
        rw [beq_false_of_ne hne]
        exact hnewRest b hb hbbinding

theorem runs_expandAttribute {scope : Scope} {a : Attribute}
    (h : ∀ q ∈ a.name.qualified.qualifier, (Scope.find scope (some q)).isSome) (p : Progress) :
    Runs (expandAttribute scope a.pending) p (a.expanded scope) p := by
  rw [expandAttribute]
  cases hq : a.name.qualified.qualifier with
  | none =>
    have hpending : a.pending.qualifier = none := hq
    simp only [hpending,Attribute.expanded,hq]
    rfl
  | some q =>
    have hpending : a.pending.qualifier = some q := hq
    obtain ⟨space,hspace⟩ := Option.isSome_iff_exists.mp (h q hq)
    simp only [hpending,Attribute.expanded,hq,hspace,Option.bind_some]
    rfl

theorem runs_distinct {scope : Scope} {attributes : List Attribute}
    (hwritten : (attributes.map (·.name.write)).Nodup)
    (hexpanded : (attributes.map (·.expanded scope)).Nodup) (p : Progress) :
    Runs (distinct (attributes.map fun a => (a.pending,a.expanded scope))) p () p := by
  induction attributes with
  | nil => exact runs_pure () p
  | cons a rest ih =>
    obtain ⟨hfirst,hrest⟩ := List.nodup_cons.mp hwritten
    obtain ⟨hname,hnames⟩ := List.nodup_cons.mp hexpanded
    refine runs_bind (runs_require ?_ p) (runs_bind (runs_faultIf ?_ p) (ih hrest hnames))
    · refine List.all_eq_true.mpr fun x hx => ?_
      obtain ⟨b,hb,rfl⟩ := List.mem_map.mp hx
      have hne : a.name.write ≠ b.name.write := fun he => hfirst (List.mem_map.mpr ⟨b,hb,he.symm⟩)
      simpa [Attribute.pending,Name.shown,String.ofList_inj] using hne
    · refine Bool.and_eq_false_iff.mpr (Or.inr (List.any_eq_false.mpr fun x hx => ?_))
      obtain ⟨b,hb,rfl⟩ := List.mem_map.mp hx
      have hne : a.expanded scope ≠ b.expanded scope :=
        fun he => hname (List.mem_map.mpr ⟨b,hb,he.symm⟩)
      simpa using hne

theorem Attribute.known_of_mem (a : Attribute) {piece : Piece} (h : piece ∈ a.pending.pieces) :
    piece.char?.isSome := by
  rw [Attribute.pending,List.map_map] at h
  obtain ⟨part,-,rfl⟩ := List.mem_map.mp h
  exact Option.isSome_iff_exists.mpr ⟨_,part.char?_piece⟩

theorem runs_identify {p : Progress} {text : String} (h : p.Admits [text]) :
    Runs (identify text) p () (p.identifying [text]) := by
  have hnew : text ∉ p.identities := fun hmem =>
    (List.nodup_append.mp h).2.2 text (List.mem_reverse.mpr hmem) text (by simp) rfl
  refine runs_bind (a := p) rfl ?_
  exact runs_bind (runs_faultIf (by simpa using hnew) p) rfl

theorem runs_checkIdentity {p : Progress} (hp : Quiet p) (element : String) {a : Attribute}
    (hplain : ∀ i ∈ a.identity, isPlainName i.toList = true) (hids : p.Admits a.identity) :
    Runs (checkIdentity element a.pending a.value) p () (p.identifying a.identity) := by
  unfold checkIdentity
  extract_lets isText
  have htext : isText = true := by
    refine List.all_eq_true.mpr fun piece hpiece => ?_
    cases piece with
    | plain c => rfl
    | coded c => rfl
    | entity name => exact a.known_of_mem hpiece
  have hpending : a.pending.qualifier = a.name.qualified.qualifier ∧
      a.pending.localName = a.name.qualified.localName := ⟨rfl,rfl⟩
  rw [htext,hpending.1,hpending.2,Bool.true_and]
  unfold Attribute.identity at *
  cases hne : decide (a.value ≠ "") with
  | false =>
    rw [Bool.and_false,if_neg Bool.false_ne_true,if_neg Bool.false_ne_true]
    exact runs_pure () p
  | true =>
    rw [hne,Bool.and_true] at hplain hids
    rw [Bool.and_true,if_pos rfl]
    split
    · rename_i hid
      rw [if_pos hid] at hplain hids
      have hname := hplain a.value (by simp)
      exact runs_bind (runs_faultIf (by rw [hname]; rfl) p) (runs_identify hids)
    · refine runs_bind (a := p) rfl ?_
      rw [hp.rule?]
      exact runs_pure () p

/-- Bindings of one qualifier are written alike. -/
theorem write_eq_of_bound_eq {a b : Attribute} (ha : a.isBinding = true) (hb : b.isBinding = true)
    (h : a.bound = b.bound) : a.name.write = b.name.write := by
  have hwrite : ∀ c : Attribute, c.isBinding = true → c.name.write =
      c.bound.elim "xmlns".toList fun q => "xmlns".toList ++ ':' :: q.toList := by
    intro c hc
    cases hq : c.name.qualifier with
    | none =>
      have hlocal : c.name.localName = "xmlns".toList := by
        simpa [Attribute.isBinding,Name.qualified,hq,String.ext_iff] using hc
      simp [Attribute.bound,Name.qualified,Name.write,joined,hq,hlocal]
    | some q =>
      have hspelt : q = "xmlns".toList := by
        simpa [Attribute.isBinding,Name.qualified,hq,String.ext_iff] using hc
      simp [Attribute.bound,Name.qualified,Name.write,joined,hq,hspelt]
  rw [hwrite a ha,hwrite b hb,h]

theorem bindOnce_of_nodup {attributes : List Attribute}
    (h : (attributes.map (·.name.write)).Nodup) : BindOnce attributes :=
  (List.pairwise_map.mp h).imp fun hne ha hb he => hne (write_eq_of_bound_eq ha hb he)

theorem runs_defaultsFor {p : Progress} (hp : Quiet p) (element : String) :
    Runs (defaultsFor element) p [] p := by
  refine runs_bind (a := p) rfl ?_
  rw [hp.rules]
  rfl

theorem filter_pending (t : Tag) : (t.attributes.map (·.pending)).filter (!Check.isBinding ·) =
    t.plain.map (·.pending) := by
  rw [List.filter_map]
  rfl

theorem runs_pendAll {p : Progress} (hp : Quiet p) (t : Tag) :
    Runs ((t.attributes.map (·.raw)).mapM (pend t.name.shown)) p
      (t.attributes.map (·.pending)) p := by
  rw [List.mapM_map]
  exact runs_mapM fun a _ => a.runs_pend hp t.name.shown

theorem runs_expandAll {t : Tag} {outer : Scope} (h : t.Bound outer) (p : Progress) :
    Runs ((t.plain.map (·.pending)).mapM (expandAttribute (t.scope outer))) p
      (t.plain.map (·.expanded (t.scope outer))) p := by
  rw [List.mapM_map]
  exact runs_mapM fun a ha => runs_expandAttribute (h.attributes a ha) p

/-- The values of a tag's attributes are shown, and its identities are noted. -/
theorem runs_showAll {p : Progress} (hp : Quiet p) (depth : Nat) {t : Tag} {outer : Scope}
    (h : t.Bound outer) (hids : p.Admits t.identities) :
    Runs ((t.plain.map fun a => (a.pending,a.expanded (t.scope outer))).mapM fun x => do
        let text ← Check.value depth x.1.pieces
        checkIdentity t.name.shown x.1 text
        return (⟨x.2,text⟩ : Markup.Attribute)) p (t.shown outer) (p.identifying t.identities) := by
  rw [List.mapM_map]
  refine runs_mapM_identifying (fun a ha p hp hids => ?_) hp hids
  have hplain := fun i hi => h.identities i (List.mem_flatMap.mpr ⟨a,ha,hi⟩)
  refine runs_bind (a.runs_value depth p) ?_
  exact runs_bind (runs_checkIdentity hp _ hplain hids) (runs_pure _ _)

/-- A tag whose names are bound is opened, and its identities are noted. -/
theorem runs_openElement {p : Progress} (hp : Quiet p) (depth : Nat) {t : Tag} {outer : Scope}
    (h : t.Bound outer) (hids : p.Admits t.identities) :
    Runs (openElement depth outer t.name.shown (t.attributes.map (·.raw))) p
      ⟨t.name.shown,t.expanded outer,t.shown outer,t.scope outer,[]⟩
      (p.identifying t.identities) := by
  have hname : QualifiedName.ofText? t.name.shown.toList = some t.name.qualified := by
    rw [Name.shown,String.toList_ofList,t.name.ofText?_write]
  have hbindings : Runs (bindings depth [] (t.attributes.map (·.pending))) p
      ((t.attributes.filterMap (·.binding?)).reverse ++ []) p :=
    runs_bindings hp depth h.admissible (bindOnce_of_nodup h.distinct) (by simp)
  refine runs_bind (runs_ofOption hname p) ?_
  refine runs_bind (runs_faultIf rfl p) ?_
  refine runs_bind (runs_pendAll hp t) ?_
  refine runs_bind hbindings ?_
  refine runs_bind (runs_defaultsFor hp _) ?_
  refine runs_bind (a := []) rfl ?_
  extract_lets scope plain added space name
  -- Without defaults nothing is added, and the scope is the tag's own.
  have hscope : scope = t.scope outer := by simp [scope,Tag.scope]
  have hplain : plain = t.plain.map (·.pending) := filter_pending t
  have hspace : space = Scope.find (t.scope outer) t.name.qualified.qualifier := by rw [← hscope]
  have hfound : (t.name.qualified.qualifier.isSome && space.isNone) = false := by
    rw [hspace]
    cases hq : t.name.qualified.qualifier with
    | none => rfl
    | some q => simpa using h.name q hq
  have hexpanded : name = t.expanded outer := by
    have hchosen : name = ⟨space,t.name.qualified.localName⟩ :=
      if_neg (by rw [hfound]; exact Bool.false_ne_true)
    rw [hchosen,hspace]
    rfl
  have hdistinct := runs_distinct
    (h.distinct.sublist ((List.filter_sublist (p := (!·.isBinding))).map _)) h.expanded p
  rw [hscope,hplain]
  refine runs_bind (runs_expandAll h p) ?_
  rw [List.zip_map']
  refine runs_bind hdistinct (runs_bind (runs_pure [] p) ?_)
  refine runs_bind (runs_faultIf rfl p) (runs_bind (runs_faultIf hfound p) ?_)
  rw [List.zip_nil_right,List.append_nil,hexpanded]
  exact runs_bind (runs_showAll hp depth h hids) (runs_pure _ _)

theorem IsNamePart.colon_not_mem {cs : List Char} (h : IsNamePart cs) :
    cs.contains ':' = false := by
  rw [List.contains_eq_mem,decide_eq_false_iff_not]
  exact fun hmem => (h.all ':' hmem).2 rfl

/-- An instruction may be warned of, but is no fault. -/
theorem runs_instruction {p : Progress} (hp : Quiet p) {target : List Char}
    (h : IsTarget target) : Runs (Check.instruction (String.ofList target)) p () p := by
  have hfault : Runs (faultIf ((String.ofList target).toList.contains ':')) p () p :=
    runs_faultIf (by rw [String.toList_ofList,h.part.colon_not_mem]) p
  exact runs_ite (runs_ite (runs_bind hp.runs_warn hfault) (runs_pure () p)) hfault

end Written
end Markup
end TypedResources

import TypedResources.General.Except
import TypedResources.Proofs.Yaml.Course
import TypedResources.Proofs.Yaml.Scanning
import TypedResources.Yaml.Document

/-! Making a node of tokens adds two faults only, that the form is wrong and that an alias names what
cannot be written down twice: where the tokens were stopped early, what stopped them stays the fault. -/
namespace TypedResources.Yaml

open Course

namespace Build

/-- Readers of tokens leave the fault alone that stopped the tokens, and pass on no other, unless an
alias is among the tokens. -/
def keeping : Course Progress where
  leads p p' := p'.fault = p.fault ∧ p'.tokens <:+ p.tokens
  wrong p fault := p.fault = some fault ∨ (fault = .identity ∧ ∃ name, .alias name ∈ p.tokens)
  refl _ := ⟨rfl,List.suffix_refl _⟩
  trans h₁ h₂ := ⟨h₂.1.trans h₁.1,h₂.2.trans h₁.2⟩
  stable h hfault := hfault.imp (h.1 ▸ ·) fun ⟨rfl,name,hname⟩ => ⟨rfl,name,h.2.mem hname⟩

variable {α : Type}

theorem holds_refuse : keeping.Holds (refuse : Build α) := by
  intro p
  refine goesOn_bind goesOn_get fun q p' h => ?_
  obtain ⟨rfl,rfl⟩ := Prod.mk.inj (Except.ok.inj h)
  refine goesOn_throw ?_
  split
  · cases hp : p.fault with
    | none => exact .inl rfl
    | some fault => exact .inr (.inl hp)
  · exact .inl rfl

/-- Changes that leave the tokens alone, too. -/
theorem holds_change {f : Progress → Progress}
    (hf : ∀ p, (f p).fault = p.fault ∧ (f p).tokens = p.tokens) : keeping.Holds (modify f) :=
  holds_modify fun p => ⟨(hf p).1,(hf p).2 ▸ List.suffix_refl _⟩

theorem holds_peek : keeping.Holds peek := holds_bind holds_get fun _ => holds_pure _

theorem holds_advance : keeping.Holds advance :=
  holds_modify fun p => ⟨rfl,List.tail_suffix p.tokens⟩

theorem holds_takeIf (token : Token) : keeping.Holds (takeIf token) :=
  holds_bind holds_peek fun _ =>
    holds_ite (holds_bind holds_advance fun _ => holds_pure _) (holds_pure _)

theorem holds_expect (token : Token) : keeping.Holds (expect token) :=
  holds_bind (holds_takeIf token) fun _ => holds_ite (holds_pure _) holds_refuse

theorem holds_comes (tokens : List Token) : keeping.Holds (comes tokens) :=
  holds_bind holds_peek fun _ => holds_pure _

theorem holds_tagName (handle : Option String) (suffix : String) :
    keeping.Holds (tagName handle suffix) := by
  cases handle with
  | none => exact holds_pure _
  | some name =>
    refine holds_bind holds_get fun p => ?_
    split
    · exact holds_pure _
    · exact holds_refuse

theorem holds_anchor? : keeping.Holds anchor? := by
  refine holds_bind holds_peek fun _ => ?_
  split
  · exact holds_bind holds_advance fun _ => holds_pure _
  · exact holds_pure _

theorem holds_tag? : keeping.Holds tag? := by
  refine holds_bind holds_peek fun _ => ?_
  split
  · exact holds_bind holds_advance fun _ => holds_bind (holds_tagName _ _) fun _ => holds_pure _
  · exact holds_pure _

theorem holds_properties : keeping.Holds properties := by
  refine holds_bind holds_anchor? fun name => ?_
  split
  · exact holds_bind holds_tag? fun _ => holds_pure _
  · refine holds_bind holds_tag? fun tag => ?_
    split
    · exact holds_bind holds_anchor? fun _ => holds_pure _
    · exact holds_pure _

theorem holds_openAnchor (name : Option String) : keeping.Holds (openAnchor name) := by
  cases name with
  | none => exact holds_pure _
  | some name =>
    have hopen : keeping.Holds (modify fun p => { p with anchors := (name,none) :: p.anchors }) :=
      holds_change fun _ => ⟨rfl,rfl⟩
    exact holds_bind holds_get fun _ => holds_ite (holds_bind holds_refuse fun _ => hopen) hopen

theorem holds_closeAnchor (node : Node) (name : Option String) :
    keeping.Holds (closeAnchor node name) := by
  cases name with
  | none => exact holds_pure _
  | some name => exact holds_change fun _ => ⟨rfl,rfl⟩

theorem peek_eq_ok {p p' : Progress} {token : Option Token} (h : peek p = .ok (token,p')) :
    token = p.tokens.head? ∧ p' = p := by
  obtain ⟨rfl,rfl⟩ := Prod.mk.inj (Except.ok.inj h)
  exact ⟨rfl,rfl⟩

theorem goesOn_aliased {name : String} {p : Progress} (h : .alias name ∈ p.tokens) :
    keeping.GoesOn (aliased name) p (keeping.wrong p) := by
  have hidentity : keeping.wrong p .identity := .inr ⟨rfl,name,h⟩
  refine goesOn_bind goesOn_get fun _ p' hget => ?_
  obtain ⟨rfl,rfl⟩ := Prod.mk.inj (Except.ok.inj hget)
  split
  · split
    · exact goesOn_throw (.inr hidentity)
    · exact goesOn_pure _
  · exact goesOn_throw (.inr hidentity)
  · exact holds_refuse _

/-- All readers of nodes keep to the course while this many of them may still call one another. -/
structure NodesHold (bound : Nat) : Prop where
  node : ∀ place, keeping.Holds (node bound place)
  content : ∀ place p, keeping.Holds (content bound place p)
  dashed : ∀ ends, keeping.Holds (dashed bound ends)
  optional : ∀ place ends, keeping.Holds (optional bound place ends)
  valueAt : ∀ place ends, keeping.Holds (valueAt bound place ends)
  blockEntries : keeping.Holds (blockEntries bound)
  bracketed : ∀ isFirst, keeping.Holds (bracketed bound isFirst)
  braced : ∀ isFirst, keeping.Holds (braced bound isFirst)

namespace NodesHold

variable {bound : Nat}

theorem node_succ (h : NodesHold bound) (place : Place) :
    keeping.Holds (Build.node (bound + 1) place) := by
  intro p
  refine goesOn_bind (holds_peek p) fun next p' hpeek => ?_
  obtain ⟨rfl,rfl⟩ := peek_eq_ok hpeek
  split
  · exact (goesOn_aliased (List.mem_of_head? ‹_›)).bind fun _ =>
      holds_bind holds_advance fun _ => holds_pure _
  · have hnode : keeping.Holds (do
        let p ← properties
        openAnchor p.anchor
        let node ← Build.content bound place p
        closeAnchor node p.anchor
        return node) :=
      holds_bind holds_properties fun p => holds_bind (holds_openAnchor _) fun _ =>
        holds_bind (h.content place p) fun _ => holds_bind (holds_closeAnchor _ _) fun _ =>
          holds_pure _
    exact hnode _

theorem content_succ (h : NodesHold bound) (place : Place) (p : Properties) :
    keeping.Holds (Build.content (bound + 1) place p) := by
  refine holds_bind holds_peek fun _ => ?_
  split
  · exact holds_bind holds_advance fun _ => holds_pure _
  · exact holds_bind holds_advance fun _ => holds_bind (h.bracketed _) fun _ => holds_pure _
  · exact holds_bind holds_advance fun _ => holds_bind (h.braced _) fun _ => holds_pure _
  · exact holds_bind (h.dashed _) fun _ => holds_pure _
  · exact holds_bind holds_advance fun _ => holds_bind (h.dashed _) fun _ =>
      holds_bind (holds_expect _) fun _ => holds_pure _
  · exact holds_bind holds_advance fun _ => holds_bind (h.dashed _) fun _ =>
      holds_bind (holds_expect _) fun _ => holds_pure _
  · exact holds_bind holds_advance fun _ => holds_bind h.blockEntries fun _ =>
      holds_bind (holds_expect _) fun _ => holds_pure _
  · exact holds_bind holds_advance fun _ => holds_bind h.blockEntries fun _ =>
      holds_bind (holds_expect _) fun _ => holds_pure _
  · exact holds_ite holds_refuse (holds_pure _)

theorem dashed_succ (h : NodesHold bound) (ends : List Token) :
    keeping.Holds (Build.dashed (bound + 1) ends) := by
  refine holds_bind (holds_takeIf _) fun _ => holds_ite ?_ (holds_pure _)
  have hrest : ∀ item, keeping.Holds (do return item :: (← Build.dashed bound ends)) := fun _ =>
    holds_bind (h.dashed ends) fun _ => holds_pure _
  exact holds_bind (holds_comes ends) fun _ =>
    holds_ite (holds_bind (holds_pure _) hrest) (holds_bind (h.node .block) hrest)

theorem optional_succ (h : NodesHold bound) (place : Place) (ends : List Token) :
    keeping.Holds (Build.optional (bound + 1) place ends) :=
  holds_bind (holds_comes ends) fun _ => holds_ite (holds_pure _) (h.node place)

theorem valueAt_succ (h : NodesHold bound) (place : Place) (ends : List Token) :
    keeping.Holds (Build.valueAt (bound + 1) place ends) :=
  holds_bind (holds_takeIf _) fun _ => holds_ite (h.optional place ends) (holds_pure _)

theorem blockEntries_succ (h : NodesHold bound) :
    keeping.Holds (Build.blockEntries (bound + 1)) :=
  holds_bind (holds_takeIf _) fun _ => holds_ite
    (holds_bind (h.optional _ _) fun _ => holds_bind (h.valueAt _ _) fun _ =>
      holds_bind h.blockEntries fun _ => holds_pure _)
    (holds_pure _)

/-- What stands between brackets or braces: a comma first, unless it is the first, and then an entry
with a key, the end, or a node. -/
theorem between {item : Type} {close : Token} {isFirst : Bool} {entry last : Build (List item)}
    (hentry : keeping.Holds entry) (hlast : keeping.Holds last) :
    keeping.Holds (do
      if ← takeIf close then return []
      unless isFirst do expect .comma
      if ← takeIf .key then entry
      else if ← takeIf close then return []
      else last) := by
  have hrest : keeping.Holds (do
      if ← takeIf .key then entry
      else if ← takeIf close then return []
      else last) :=
    holds_bind (holds_takeIf _) fun _ => holds_ite hentry <|
      holds_bind (holds_takeIf _) fun _ => holds_ite (holds_pure _) hlast
  refine holds_bind (holds_takeIf _) fun _ => holds_ite (holds_pure _) ?_
  exact holds_ite hrest (holds_bind (holds_expect _) fun _ => hrest)

theorem bracketed_succ (h : NodesHold bound) (isFirst : Bool) :
    keeping.Holds (Build.bracketed (bound + 1) isFirst) :=
  between
    (holds_bind (h.optional _ _) fun _ => holds_bind (h.valueAt _ _) fun _ =>
      holds_bind (h.bracketed _) fun _ => holds_pure _)
    (holds_bind (h.node _) fun _ => holds_bind (h.bracketed _) fun _ => holds_pure _)

theorem braced_succ (h : NodesHold bound) (isFirst : Bool) :
    keeping.Holds (Build.braced (bound + 1) isFirst) :=
  between
    (holds_bind (h.optional _ _) fun _ => holds_bind (h.valueAt _ _) fun _ =>
      holds_bind (h.braced _) fun _ => holds_pure _)
    (holds_bind (h.node _) fun _ => holds_bind (h.braced _) fun _ => holds_pure _)

end NodesHold

theorem nodesHold (bound : Nat) : NodesHold bound := by
  induction bound with
  | zero =>
    exact ⟨fun _ => holds_refuse,fun _ _ => holds_refuse,fun _ => holds_refuse,
      fun _ _ => holds_refuse,fun _ _ => holds_refuse,holds_refuse,fun _ => holds_refuse,
      fun _ => holds_refuse⟩
  | succ bound ih =>
    exact ⟨ih.node_succ,ih.content_succ,ih.dashed_succ,ih.optional_succ,ih.valueAt_succ,
      ih.blockEntries_succ,ih.bracketed_succ,ih.braced_succ⟩

theorem holds_directives (bound : Nat) (hasVersion : Bool) :
    keeping.Holds (directives bound hasVersion) := by
  induction bound generalizing hasVersion with
  | zero => exact holds_refuse
  | succ bound ih =>
    refine holds_bind holds_peek fun _ => ?_
    split
    · refine holds_bind holds_advance fun _ => ?_
      split
      · exact holds_ite (holds_bind holds_refuse fun _ => ih _) (ih _)
      · have hmore : ∀ handle, keeping.Holds (do
            modify fun p => { p with handles := p.handles ++ [handle] }
            directives bound hasVersion) := fun _ =>
          holds_bind (holds_change fun _ => ⟨rfl,rfl⟩) fun _ => ih _
        exact holds_bind holds_get fun _ =>
          holds_ite (holds_bind holds_refuse fun _ => hmore _) (hmore _)
      · exact ih _
    · exact holds_change fun _ => ⟨rfl,rfl⟩

theorem holds_documentContent (bound : Nat) : keeping.Holds (documentContent bound) := by
  refine holds_bind holds_peek fun _ => ?_
  split
  · exact holds_pure _
  · exact holds_pure _
  · exact holds_pure _
  · exact holds_bind holds_get fun _ => holds_ite holds_refuse (holds_pure _)
  · exact (nodesHold bound).node _

theorem holds_documentEnd : keeping.Holds documentEnd :=
  holds_bind (holds_modify fun _ => ⟨rfl,List.dropWhile_suffix _⟩) fun _ =>
    holds_bind holds_get fun _ => holds_ite (holds_pure _) holds_refuse

theorem holds_document (bound : Nat) : keeping.Holds (document bound) := by
  have hmarked : keeping.Holds (do
      directives bound false
      expect .documentStart
      let node ← documentContent bound
      documentEnd
      return some node) :=
    holds_bind (holds_directives _ _) fun _ => holds_bind (holds_expect _) fun _ =>
      holds_bind (holds_documentContent _) fun _ => holds_bind holds_documentEnd fun _ =>
        holds_pure _
  refine holds_bind holds_peek fun _ => ?_
  split
  · exact holds_bind holds_get fun _ => holds_ite holds_refuse (holds_pure _)
  · exact hmarked
  · exact hmarked
  · exact holds_bind (holds_change fun _ => ⟨rfl,rfl⟩) fun _ =>
      holds_bind ((nodesHold bound).node _) fun _ => holds_bind holds_documentEnd fun _ =>
        holds_pure _

end Build

/-- A text without a document is malformed, or it escapes a number that no character has, or an alias
in it stands for what cannot be written down twice. -/
theorem fault_of_readDocument {cs : List Char} {fault : Fault} (h : readDocument cs = .error fault) :
    fault = .malformed ∨ EscapesNoCharacter cs fault ∨
      (fault = .identity ∧ ∃ name, .alias name ∈ (Tokens.ofText cs).list) := by
  unfold readDocument at h
  split at h
  · have hrun := (Except.map_eq_error_iff _ _ _).mp h
    rcases (Build.holds_document _ _).wrong fault hrun with hform | hstopped | halias
    · exact .inl hform
    · exact (fault_of_tokens hstopped).imp_right .inl
    · exact .inr (.inr halias)
  · exact .inl (Except.error.inj h).symm

end TypedResources.Yaml

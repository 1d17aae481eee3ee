import TypedResources.Markup.Document
import TypedResources.Proofs.Markup.Reading
import TypedResources.Resource.Resx

/-! A document that is read consists of characters that documents can hold: its attributes, its
texts and the names of its references, whatever entities and defaults went into them. -/
namespace TypedResources.Markup

/-- The texts that are declared so far hold only characters of documents. -/
structure Progress.Clean (p : Progress) : Prop where
  entities : ∀ e ∈ p.entities, e.2.content.Clean
  parameters : ∀ e ∈ p.parameters, e.2.Clean
  rules : ∀ r ∈ p.rules, r.2.Clean

/-- What is declared decides alone whether progress is clean. -/
theorem Progress.Clean.with_same {p q : Progress} (hp : p.Clean) (he : q.entities = p.entities)
    (hq : q.parameters = p.parameters) (hr : q.rules = p.rules) : q.Clean :=
  ⟨he ▸ hp.entities,hq ▸ hp.parameters,hr ▸ hp.rules⟩

namespace Check

variable {α β : Type}

/-- On clean progress a check gives a value with the property, and the progress stays clean. -/
def Keeps (m : Check α) (P : α → Prop) : Prop :=
  ∀ p : Progress, p.Clean → ∀ a p', m p = some (a,p') → P a ∧ p'.Clean

theorem Keeps.mono {m : Check α} {P Q : α → Prop} (h : Keeps m P) (hpq : ∀ a, P a → Q a) :
    Keeps m Q := fun p hp a p' hm => ⟨hpq a (h p hp a p' hm).1,(h p hp a p' hm).2⟩

theorem keeps_pure {P : α → Prop} {a : α} (h : P a) : Keeps (pure a) P := by
  intro p hp b p' hm
  obtain ⟨rfl,rfl⟩ := Prod.mk.inj (Option.some.inj hm)
  exact ⟨h,hp⟩

theorem keeps_bind {m : Check α} {next : α → Check β} {P : α → Prop} {Q : β → Prop}
    (hm : Keeps m P) (hnext : ∀ a, P a → Keeps (next a) Q) : Keeps (m >>= next) Q := by
  intro p hp b p'' h
  obtain ⟨⟨a,p'⟩,ha,hb⟩ := Option.bind_eq_some_iff.mp h
  obtain ⟨hpa,hp'⟩ := hm p hp a p' ha
  exact hnext a hpa p' hp' b p'' hb

/-- The check changes nothing that is declared and its value does not matter. -/
abbrev Safe (m : Check α) : Prop := Keeps m fun _ => True

theorem keeps_then {m : Check α} {next : α → Check β} {Q : β → Prop} (hm : Safe m)
    (hnext : ∀ a, Keeps (next a) Q) : Keeps (m >>= next) Q := keeps_bind hm fun a _ => hnext a

theorem keeps_failure {P : α → Prop} : Keeps (failure : Check α) P := by
  intro p _ a p' hm
  exact absurd hm (by simp [failure,StateT.failure])

theorem keeps_ofOption {o : Option α} {P : α → Prop} (h : ∀ a, o = some a → P a) :
    Keeps (ofOption o) P := by
  cases o with
  | none => exact keeps_failure
  | some a => exact keeps_pure (h a rfl)

theorem safe_require (condition : Bool) : Safe (require condition) := by
  unfold require
  split
  · exact keeps_pure trivial
  · exact keeps_failure

theorem keeps_get : Keeps get Progress.Clean := by
  intro p hp a p' hm
  obtain ⟨rfl,rfl⟩ := Prod.mk.inj (Option.some.inj hm)
  exact ⟨hp,hp⟩

theorem safe_modify {f : Progress → Progress} (h : ∀ p, p.Clean → (f p).Clean) :
    Safe (modify f) := by
  intro p hp a p' hm
  obtain ⟨-,rfl⟩ := Prod.mk.inj (Option.some.inj hm)
  exact ⟨trivial,h p hp⟩

theorem safe_set {q : Progress} (h : q.Clean) : Safe (set q) := by
  intro p _ a p' hm
  obtain ⟨-,rfl⟩ := Prod.mk.inj (Option.some.inj hm)
  exact ⟨trivial,h⟩

theorem keeps_mapM {f : α → Check β} {P : β → Prop} {as : List α}
    (h : ∀ a ∈ as, Keeps (f a) P) : Keeps (as.mapM f) fun bs => ∀ b ∈ bs, P b := by
  induction as with
  | nil => exact keeps_pure fun b hb => by simp at hb
  | cons a rest ih =>
    rw [List.mapM_cons]
    refine keeps_bind (h a (by simp)) fun b hb => ?_
    refine keeps_bind (ih fun x hx => h x (by simp [hx])) fun bs hbs => keeps_pure ?_
    intro c hc
    rcases List.mem_cons.mp hc with rfl | hc
    · exact hb
    · exact hbs c hc

/-- Values of safe checks do not matter. -/
theorem safe_mapM {f : α → Check β} {as : List α} (h : ∀ a ∈ as, Safe (f a)) : Safe (as.mapM f) :=
  (keeps_mapM h).mono fun _ _ => trivial

theorem safe_forM {f : α → Check PUnit} {as : List α} (h : ∀ a ∈ as, Safe (f a)) :
    Safe (as.forM f) := by
  induction as with
  | nil => exact keeps_pure trivial
  | cons a rest ih =>
    exact keeps_then (h a (by simp)) fun _ => ih fun x hx => h x (by simp [hx])

theorem keeps_filterMapM {f : α → Check (Option β)} {P : β → Prop} {as : List α}
    (h : ∀ a ∈ as, Keeps (f a) fun o => ∀ b ∈ o, P b) :
    Keeps (as.filterMapM f) fun bs => ∀ b ∈ bs, P b := by
  induction as with
  | nil => exact keeps_pure fun b hb => by simp at hb
  | cons a rest ih =>
    rw [List.filterMapM_cons]
    refine keeps_bind (h a (by simp)) fun o ho => ?_
    have hrest := ih fun x hx => h x (by simp [hx])
    cases o with
    | none => exact hrest
    | some b =>
      refine keeps_bind hrest fun bs hbs => keeps_pure ?_
      intro c hc
      rcases List.mem_cons.mp hc with rfl | hc
      · exact ho c rfl
      · exact hbs c hc

theorem safe_filterMapM {f : α → Check (Option β)} {as : List α} (h : ∀ a ∈ as, Safe (f a)) :
    Safe (as.filterMapM f) :=
  (keeps_filterMapM (P := fun _ => True) fun a ha => (h a ha).mono fun _ _ _ _ => trivial).mono
    fun _ _ => trivial

theorem safe_fault : Safe fault := safe_modify fun _ hp => hp.with_same rfl rfl rfl

theorem safe_warn : Safe warn := safe_modify fun _ hp => hp.with_same rfl rfl rfl

theorem safe_faultIf (condition : Bool) : Safe (faultIf condition) := by
  unfold faultIf
  split
  · exact safe_fault
  · exact keeps_pure trivial

theorem safe_charge (size : Nat) : Safe (charge size) := by
  refine keeps_bind keeps_get fun p hp => ?_
  extract_lets spent
  split
  · exact keeps_failure
  · exact safe_set (hp.with_same rfl rfl rfl)

theorem keeps_separately {m : Check α} {P : α → Prop} (h : Keeps m P) :
    Keeps (separately m) fun r => P r.1 := by
  refine keeps_then (keeps_get.mono fun _ _ => trivial) fun _ => ?_
  refine keeps_then (safe_modify fun _ hp => hp.with_same rfl rfl rfl) fun _ => ?_
  refine keeps_bind h fun a ha => keeps_then (keeps_get.mono fun _ _ => trivial) fun _ => ?_
  exact keeps_then (safe_modify fun _ hp => hp.with_same rfl rfl rfl) fun _ =>
    keeps_pure ha

theorem keeps_withoutTrace {m : Check α} {P : α → Prop} (h : Keeps m P) :
    Keeps (withoutTrace m) P := by
  refine keeps_bind keeps_get fun before hbefore => keeps_bind h fun a ha => ?_
  refine keeps_then (safe_modify fun p _ => ?_) fun _ => keeps_pure ha
  exact hbefore.with_same rfl rfl rfl

theorem safe_undeclared : Safe undeclared := by
  refine keeps_bind keeps_get fun p _ => ?_
  split
  · exact keeps_failure
  · exact safe_warn

theorem safe_markRead (name : String) (reading : FirstReading) (cost : Nat) :
    Safe (markRead name reading cost) := by
  refine safe_modify fun p hp => ⟨?_,hp.parameters,hp.rules⟩
  intro e he
  obtain ⟨⟨n,d⟩,hd,rfl⟩ := List.mem_map.mp he
  have hclean := hp.entities (n,d) hd
  dsimp only
  split
  · exact hclean
  · exact hclean

theorem safe_instruction (target : String) : Safe (instruction target) := by
  unfold instruction
  split
  · split
    · exact keeps_then safe_warn fun _ => safe_faultIf _
    · exact keeps_pure trivial
  · exact safe_faultIf _

theorem mem_of_lookup {γ : Type} {key : String} {table : List (String × γ)} {v : γ}
    (h : table.lookup key = some v) : (key,v) ∈ table := by
  induction table with
  | nil => simp at h
  | cons entry rest ih =>
    obtain ⟨k,w⟩ := entry
    rw [List.lookup_cons] at h
    split at h
    · rename_i hk
      obtain rfl := Option.some.inj h
      simp [eq_of_beq hk]
    · exact List.mem_cons_of_mem _ (ih h)

/-- A character that an entity stands for from the start is one of documents. -/
theorem isChar_of_predefined? {entity : String} {c : Char} (h : predefined? entity = some c) :
    isChar c = true := by
  have hmem := mem_of_lookup h
  simp only [List.mem_cons,Prod.mk.injEq,List.not_mem_nil,or_false] at hmem
  rcases hmem with ⟨-,rfl⟩ | ⟨-,rfl⟩ | ⟨-,rfl⟩ | ⟨-,rfl⟩ | ⟨-,rfl⟩ <;> decide

end Check

theorem clean_unifyLineEnds {cs : List Char} (h : Clean cs) : Clean (Text.unifyLineEnds cs) := by
  fun_induction Text.unifyLineEnds cs with
  | case1 => exact h
  | case2 rest ih =>
    exact Clean.cons (by decide) (ih (h.of_suffix ⟨['\r','\n'],rfl⟩))
  | case3 rest _ ih => exact Clean.cons (by decide) (ih (h.of_suffix (List.suffix_cons _ _)))
  | case4 c rest _ _ ih =>
    exact Clean.cons (h c (by simp)) (ih (h.of_suffix (List.suffix_cons _ _)))

namespace Check

/-- The characters of a piece, once it is known what entities stand for. -/
theorem keeps_pieceValue {depth : Nat} (h : ∀ name, Keeps (entityValue depth name) Clean)
    (piece : Piece) : piece.Clean →
    Keeps (match piece with
      | .plain c | .coded c => pure [c]
      | .entity inner =>
        match predefined? inner with
        | some c => pure [c]
        | none => entityValue depth inner : Check (List Char)) Clean := by
  intro hpiece
  cases piece with
  | plain c => exact keeps_pure (clean_singleton hpiece)
  | coded c => exact keeps_pure (clean_singleton hpiece)
  | entity inner =>
    dsimp only
    split
    · rename_i c hc
      exact keeps_pure (clean_singleton (isChar_of_predefined? hc))
    · exact h inner

theorem keeps_entityValue (depth : Nat) (name : String) :
    Keeps (entityValue depth name) Clean := by
  induction depth generalizing name with
  | zero => exact keeps_failure
  | succ depth ih =>
    refine keeps_bind keeps_get fun p hp => ?_
    split
    · exact keeps_then safe_undeclared fun _ => keeps_pure fun c hc => by simp at hc
    · rename_i text reading cost hlookup
      have htext : Clean text := hp.entities _ (mem_of_lookup hlookup)
      refine keeps_then (safe_require _) fun _ => ?_
      extract_lets unified
      have hunified : Clean unified := by
        unfold unified
        split
        · exact clean_unifyLineEnds htext
        · exact htext
      refine keeps_bind (keeps_ofOption fun _ => clean_pieces? hunified) fun ps hps => ?_
      refine keeps_bind (keeps_separately (keeps_mapM fun piece hpiece =>
        keeps_pieceValue ih piece (hps piece hpiece))) fun parts hparts => ?_
      refine keeps_then (safe_charge _) fun _ => keeps_then (safe_markRead _ _ _) fun _ => ?_
      exact keeps_pure (Clean.flatten hparts)
    · exact keeps_failure

theorem keeps_value (depth : Nat) {pieces : List Piece} (h : ∀ p ∈ pieces, p.Clean) :
    Keeps (value depth pieces) fun s => Clean s.toList := by
  have hpieces := keeps_mapM fun piece hpiece =>
    keeps_pieceValue (keeps_entityValue depth) piece (h piece hpiece)
  refine keeps_bind hpieces fun parts hparts => keeps_pure ?_
  rw [String.toList_ofList]
  exact Clean.flatten hparts

theorem safe_declareEntity (name : String) {content : EntityContent} (h : content.Clean) :
    Safe (declareEntity name content) := by
  refine keeps_then (safe_faultIf _) fun _ => safe_modify fun p hp => ⟨?_,hp.parameters,hp.rules⟩
  dsimp only
  split
  · exact hp.entities
  · intro e he
    rcases List.mem_append.mp he with he | he
    · exact hp.entities e he
    · rw [List.mem_singleton.mp he]
      exact h

theorem safe_declareParameter (name : String) {content : EntityContent} (h : content.Clean) :
    Safe (declareParameter name content) := by
  refine keeps_then (safe_faultIf _) fun _ => safe_modify fun p hp => ⟨hp.entities,?_,hp.rules⟩
  dsimp only
  split
  · exact hp.parameters
  · intro e he
    rcases List.mem_append.mp he with he | he
    · exact hp.parameters e he
    · rw [List.mem_singleton.mp he]
      exact h

theorem clean_default {rule : AttributeRule} (h : rule.Clean) :
    ∀ p ∈ rule.default.getD [], p.Clean := by
  cases hd : rule.default with
  | none => exact fun p hp => by simp at hp
  | some ps => exact h ps hd

theorem safe_declareAttribute (element : String) {rule : AttributeRule} (h : rule.Clean) :
    Safe (declareAttribute element rule) := by
  refine keeps_then (safe_faultIf _) fun _ => ?_
  have hvalue := keeps_value (maxEntityDepth - 1) (clean_default h)
  refine keeps_then ((keeps_withoutTrace hvalue).mono fun _ _ => trivial) fun _ => ?_
  refine keeps_then (safe_faultIf _) fun _ => safe_modify fun p hp => ⟨hp.entities,hp.parameters,?_⟩
  dsimp only
  split
  · exact hp.rules
  · intro r hr
    rcases List.mem_append.mp hr with hr | hr
    · exact hp.rules r hr
    · rw [List.mem_singleton.mp hr]
      exact h

theorem safe_declare (depth : Nat) {d : Declaration} (h : d.Clean) : Safe (declare depth d) := by
  -- only the text of a parameter is worked off at a smaller depth
  induction depth using Nat.strongRecOn generalizing d with
  | ind depth ih =>
    cases d with
    | entity name content => rw [declare]; exact safe_declareEntity name h
    | parameter name content => rw [declare]; exact safe_declareParameter name h
    | attributes element rules =>
      rw [declare]
      exact safe_forM fun r hr => safe_declareAttribute element (h r hr)
    | notationName name => rw [declare]; exact safe_faultIf _
    | instruction target => rw [declare]; exact safe_instruction target
    | other => rw [declare]; exact keeps_pure trivial
    | parameterReference name =>
      cases depth with
      | zero => exact keeps_failure
      | succ depth =>
        refine keeps_then (safe_modify fun p hp => hp.with_same rfl rfl rfl) fun _ => ?_
        refine keeps_bind keeps_get fun p hp => ?_
        split
        · exact safe_undeclared
        · rename_i text hlookup
          have htext : Clean text := hp.parameters _ (mem_of_lookup hlookup)
          refine keeps_then (safe_charge _) fun _ => ?_
          have hread := clean_unifyLineEnds htext
          refine keeps_bind (keeps_ofOption fun _ => clean_declarations? hread) fun ds hds => ?_
          exact safe_forM fun d hd => ih depth (Nat.lt_succ_self _) (hds d hd)
        · exact keeps_pure trivial

end Check

theorem Piece.Clean.spaced {p : Piece} (h : p.Clean) : p.spaced.Clean := by
  cases p with
  | plain c =>
    show isChar (if Reader.isBlank c then ' ' else c) = true
    split
    · decide
    · exact h
  | coded c => exact h
  | entity name => exact h

theorem mem_of_mem_collapseSpaces {p : Piece} {ps : List Piece} (h : p ∈ collapseSpaces ps) :
    p ∈ ps := by
  fun_induction collapseSpaces ps with
  | case1 => exact h
  | case2 => exact h
  | case3 q r rest _ ih => exact List.mem_cons_of_mem _ (ih h)
  | case4 q r rest _ ih =>
    rcases List.mem_cons.mp h with rfl | h
    · simp
    · exact List.mem_cons_of_mem _ (ih h)

theorem mem_of_mem_tokenize {p : Piece} {ps : List Piece} (h : p ∈ tokenize ps) : p ∈ ps := by
  have hh := (List.dropWhile_suffix _).subset (List.mem_reverse.mp (mem_of_mem_collapseSpaces h))
  exact (List.dropWhile_suffix _).subset (List.mem_reverse.mp hh)

namespace Check

theorem clean_normalize (type : AttributeType) {ps : List Piece} (h : ∀ p ∈ ps, p.Clean) :
    ∀ p ∈ normalize type ps, p.Clean := by
  have hspaced : ∀ p ∈ ps.map Piece.spaced, p.Clean := by
    intro p hp
    obtain ⟨q,hq,rfl⟩ := List.mem_map.mp hp
    exact (h q hq).spaced
  cases type with
  | text => exact hspaced
  | identity => exact fun p hp => hspaced p (mem_of_mem_tokenize hp)
  | tokens => exact fun p hp => hspaced p (mem_of_mem_tokenize hp)

def PendingAttribute.Clean (a : PendingAttribute) : Prop := ∀ p ∈ a.pieces, p.Clean

theorem safe_admitBinding (qualifier : Option String) (space : String) :
    Safe (admitBinding qualifier space) := by
  unfold admitBinding
  split
  · split
    · exact keeps_pure trivial
    · extract_lets afterReference
      have hafter : ∀ u, Safe (afterReference u) := by
        intro _
        unfold afterReference
        split
        · exact keeps_then safe_fault fun _ => keeps_pure trivial
        · exact keeps_pure trivial
      split
      · exact keeps_then safe_fault hafter
      · split
        · exact keeps_then safe_warn hafter
        · exact hafter ()
  · split
    · exact keeps_then (safe_faultIf _) fun _ => keeps_pure trivial
    · split
      · exact keeps_then safe_fault fun _ => keeps_pure trivial
      · exact keeps_then (safe_faultIf _) fun _ => keeps_pure trivial

theorem safe_bindings (depth : Nat) (made : List (Option String × String))
    {as : List PendingAttribute} (h : ∀ a ∈ as, a.Clean) : Safe (bindings depth made as) := by
  induction as generalizing made with
  | nil => exact keeps_pure trivial
  | cons a rest ih =>
    have hrest := ih made fun b hb => h b (by simp [hb])
    unfold bindings
    split
    · have hspace := (keeps_value depth (h a (by simp))).mono fun _ _ => trivial
      refine keeps_then hspace fun space => ?_
      refine keeps_then (safe_admitBinding _ _) fun admitted => ?_
      split
      · exact keeps_then (safe_require _) fun _ => ih _ fun b hb => h b (by simp [hb])
      · exact hrest
    · exact hrest

theorem keeps_pend (element : String) {raw : RawAttribute} (h : ∀ p ∈ raw.value, p.Clean) :
    Keeps (pend element raw) PendingAttribute.Clean := by
  refine keeps_bind (keeps_ofOption (P := fun _ => True) fun _ _ => trivial) fun q _ => ?_
  refine keeps_then (safe_faultIf _) fun _ => keeps_bind keeps_get fun p _ => ?_
  extract_lets type pieces afterSpace written
  have hafter : ∀ u, Keeps (afterSpace u) PendingAttribute.Clean :=
    fun _ => keeps_pure (clean_normalize _ h)
  split
  · split
    · exact hafter ()
    · exact keeps_then safe_warn hafter
  · exact hafter ()

theorem keeps_defaultsFor (element : String) :
    Keeps (defaultsFor element) fun as => ∀ a ∈ as, a.Clean := by
  refine keeps_bind keeps_get fun p hp => ?_
  extract_lets rules
  have hrules : ∀ r ∈ rules, r.Clean := by
    intro r hr
    obtain ⟨e,he,rfl⟩ := List.mem_map.mp hr
    exact hp.rules e (List.mem_filter.mp he).1
  refine keeps_filterMapM fun r hr => ?_
  split
  · exact keeps_pure fun a ha => by simp at ha
  · refine keeps_pure fun a ha => ?_
    obtain rfl := Option.some.inj ha
    exact clean_normalize _ (clean_default (hrules r hr))

theorem safe_expandAttribute (scope : Scope) (a : PendingAttribute) :
    Safe (expandAttribute scope a) := by
  unfold expandAttribute
  split
  · exact keeps_pure trivial
  · split
    · exact keeps_pure trivial
    · exact keeps_then safe_fault fun _ => keeps_pure trivial

theorem safe_distinct (as : List (PendingAttribute × ExpandedName)) : Safe (distinct as) := by
  induction as with
  | nil => exact keeps_pure trivial
  | cons a rest ih =>
    exact keeps_then (safe_require _) fun _ => keeps_then (safe_faultIf _) fun _ => ih

theorem safe_identify (text : String) : Safe (identify text) := by
  refine keeps_bind keeps_get fun p _ => keeps_then (safe_faultIf _) fun _ => ?_
  exact safe_modify fun _ hp => hp.with_same rfl rfl rfl

theorem safe_checkIdentity (element : String) (a : PendingAttribute) (text : String) :
    Safe (checkIdentity element a text) := by
  unfold checkIdentity
  extract_lets isText
  split
  · split
    · exact keeps_then (safe_faultIf _) fun _ => safe_identify _
    · refine keeps_bind keeps_get fun p _ => ?_
      split
      · exact safe_identify _
      · exact keeps_pure trivial
  · exact keeps_pure trivial

end Check

def Attribute.Clean (a : Attribute) : Prop := Markup.Clean a.value.toList

/-- All texts at and below the node hold only characters of documents. -/
inductive Node.Clean : Node → Prop
  | element {name : ExpandedName} {attributes : List Attribute} {children : List Node}
      (hattributes : ∀ a ∈ attributes, a.Clean) (hchildren : ∀ n ∈ children, Node.Clean n) :
      Node.Clean (.element name attributes children)
  | text {text : String} (h : Markup.Clean text.toList) : Node.Clean (.text text)
  | reference {entity : String} (h : Markup.Clean entity.toList) : Node.Clean (.reference entity)

theorem Node.Clean.singleton {c : Char} (h : isChar c = true) :
    Node.Clean (.text (String.singleton c)) := by
  refine .text ?_
  rw [String.toList_singleton]
  exact clean_singleton h

theorem Node.Clean.ofList {cs : List Char} (h : Markup.Clean cs) :
    Node.Clean (.text (String.ofList cs)) := by
  refine .text ?_
  rwa [String.toList_ofList]

structure OpenElement.Clean (e : OpenElement) : Prop where
  attributes : ∀ a ∈ e.attributes, a.Clean
  children : ∀ n ∈ e.children, n.Clean

structure Building.Clean (b : Building) : Prop where
  openElements : ∀ e ∈ b.openElements, e.Clean
  finished : ∀ n ∈ b.finished, n.Clean

theorem Building.Clean.add {b : Building} (h : b.Clean) {n : Node} (hn : n.Clean) :
    (b.add n).Clean := by
  obtain ⟨es,ns⟩ := b
  cases es with
  | nil =>
    refine ⟨h.openElements,?_⟩
    intro m hm
    rcases List.mem_cons.mp hm with rfl | hm
    · exact hn
    · exact h.finished m hm
  | cons inner outer =>
    refine ⟨?_,h.finished⟩
    intro e he
    rcases List.mem_cons.mp he with rfl | he
    · refine ⟨(h.openElements inner (by simp)).attributes,?_⟩
      intro m hm
      rcases List.mem_cons.mp hm with rfl | hm
      · exact hn
      · exact (h.openElements inner (by simp)).children m hm
    · exact h.openElements e (by simp [he])

theorem Building.Clean.close? {b b' : Building} (h : b.Clean) {written : String}
    (hb : b.close? written = some b') : b'.Clean := by
  obtain ⟨es,ns⟩ := b
  cases es with
  | nil => simp [Building.close?] at hb
  | cons inner outer =>
    simp only [Building.close?] at hb
    split at hb
    · obtain rfl := Option.some.inj hb
      have hinner := h.openElements inner (by simp)
      have houter : (⟨outer,ns⟩ : Building).Clean :=
        ⟨fun e he => h.openElements e (by simp [he]),h.finished⟩
      exact houter.add (.element hinner.attributes fun n hn =>
        hinner.children n (List.mem_reverse.mp hn))
    · simp at hb

namespace Check

theorem keeps_openElement (depth : Nat) (outer : Scope) (written : String)
    {raw : List RawAttribute} (h : ∀ a ∈ raw, ∀ p ∈ a.value, p.Clean) :
    Keeps (openElement depth outer written raw) OpenElement.Clean := by
  refine keeps_bind (keeps_ofOption (P := fun _ => True) fun _ _ => trivial) fun q _ => ?_
  refine keeps_then (safe_faultIf _) fun _ => ?_
  refine keeps_bind (keeps_mapM fun a ha => keeps_pend written (h a ha)) fun given hgiven => ?_
  refine keeps_then (safe_bindings depth [] hgiven) fun made => ?_
  refine keeps_bind (keeps_defaultsFor written) fun defaults hdefaults => ?_
  refine keeps_then (safe_filterMapM fun a ha => ?_) fun defaultBindings => ?_
  · split
    · exact keeps_then ((keeps_value depth (hdefaults a ha)).mono fun _ _ => trivial) fun _ =>
        keeps_pure trivial
    · exact keeps_pure trivial
  extract_lets scope plain added space expanded
  refine keeps_then (safe_mapM fun a _ => safe_expandAttribute scope a) fun names => ?_
  refine keeps_then (safe_distinct _) fun _ => ?_
  refine keeps_then (safe_mapM fun a _ => safe_expandAttribute scope a) fun addedNames => ?_
  refine keeps_then (safe_faultIf _) fun _ => ?_
  refine keeps_then (safe_faultIf _) fun _ => ?_
  extract_lets all
  have hall : ∀ x ∈ all, x.1.Clean := by
    intro x hx
    rcases List.mem_append.mp hx with hx | hx
    · exact hgiven x.1 (List.mem_filter.mp (List.of_mem_zip hx).1).1
    · exact hdefaults x.1 (List.mem_filter.mp (List.of_mem_zip hx).1).1
  refine keeps_bind (keeps_mapM (P := Attribute.Clean) fun x hx => ?_)
    fun attributes hattributes => ?_
  · refine keeps_bind (keeps_value depth (hall x hx)) fun text htext => ?_
    exact keeps_then (safe_checkIdentity written x.1 text) fun _ => keeps_pure htext
  · exact keeps_pure ⟨hattributes,fun n hn => by simp at hn⟩

theorem keeps_build (depth outerDepth : Nat) {onReference : Nat → String → Check Node}
    (hreference : ∀ d name, Clean name.toList → Keeps (onReference d name) Node.Clean)
    {ts : List Token} (hts : ∀ t ∈ ts, t.Clean) {b : Building} (hb : b.Clean) :
    Keeps (build depth outerDepth onReference b ts) fun ns => ∀ n ∈ ns, n.Clean := by
  induction ts generalizing b with
  | nil =>
    refine keeps_then (safe_require _) fun _ => keeps_pure ?_
    exact fun n hn => hb.finished n (List.mem_reverse.mp hn)
  | cons t rest ih =>
    have hrest : ∀ t ∈ rest, t.Clean := fun x hx => hts x (by simp [hx])
    have ht : t.Clean := hts t (by simp)
    cases t with
    | text cs => exact ih hrest (hb.add (.ofList ht))
    | «section» cs => exact ih hrest (hb.add (.ofList ht))
    | reference piece =>
      cases piece with
      | plain c => exact ih hrest (hb.add (.singleton ht))
      | coded c => exact ih hrest (hb.add (.singleton ht))
      | entity name => exact keeps_bind (hreference _ name ht) fun n hn => ih hrest (hb.add hn)
    | opening name attributes closed =>
      refine keeps_then (safe_require _) fun _ => ?_
      refine keeps_bind (keeps_openElement depth b.scope name ht) fun element helement => ?_
      split
      · exact ih hrest (hb.add (.element helement.attributes fun n hn => by simp at hn))
      · refine ih hrest ⟨?_,hb.finished⟩
        intro e he
        rcases List.mem_cons.mp he with rfl | he
        · exact helement
        · exact hb.openElements e he
    | closing name =>
      exact keeps_bind (keeps_ofOption fun _ => hb.close?) fun b' hb' => ih hrest hb'
    | comment => exact ih hrest hb
    | instruction target => exact keeps_then (safe_instruction target) fun _ => ih hrest hb

theorem clean_empty : Building.empty.Clean :=
  ⟨fun e he => by simp [Building.empty] at he,fun n hn => by simp [Building.empty] at hn⟩

theorem keeps_contentReference (depth openDepth : Nat) (name : String) (h : Clean name.toList) :
    Keeps (contentReference depth openDepth name) Node.Clean := by
  induction depth using Nat.strongRecOn generalizing openDepth name with
  | ind depth ih =>
    unfold contentReference
    split
    · rename_i c hc
      exact keeps_pure (.singleton (isChar_of_predefined? hc))
    · refine keeps_bind keeps_get fun p hp => ?_
      extract_lets afterLookup
      have hafter : ∀ u, Keeps (afterLookup u) Node.Clean := fun _ => keeps_pure (.reference h)
      split
      · exact keeps_then safe_undeclared hafter
      · exact keeps_then keeps_failure hafter
      · exact hafter ()
      · exact keeps_then (safe_charge _) hafter
      · rename_i text cost hlookup
        cases depth with
        | zero => exact keeps_then keeps_failure hafter
        | succ depth =>
          have htext : Clean text := hp.entities _ (mem_of_lookup hlookup)
          refine keeps_bind (keeps_ofOption fun _ => clean_tokens? (clean_unifyLineEnds htext))
            fun ts hts => ?_
          have hinner := keeps_build (depth - 1) (openDepth + 1) (ih depth (Nat.lt_succ_self _))
            hts clean_empty
          refine keeps_then ((keeps_separately hinner).mono fun _ _ => trivial) fun _ => ?_
          exact keeps_then (safe_markRead _ _ _) fun _ => keeps_then (safe_charge _) hafter

theorem mem_of_mem_splitRoot {depth : Nat} {ts : List Token} {t : Token}
    (h : t ∈ (splitRoot depth ts).1 ++ (splitRoot depth ts).2) : t ∈ ts := by
  induction ts generalizing depth with
  | nil => simp [splitRoot] at h
  | cons u rest ih =>
    unfold splitRoot at h
    extract_lets after at h
    split at h
    · simpa using h
    · simp only [List.cons_append,List.mem_cons] at h
      rcases h with rfl | h
      · simp
      · exact List.mem_cons_of_mem _ (ih h)

theorem keeps_document {prolog : Prolog}
    (hprolog : ∀ type ∈ prolog.documentType, ∀ d ∈ type.declarations, d.Clean) {ts : List Token}
    (hts : ∀ t ∈ ts, t.Clean) : Keeps (document prolog ts) Node.Clean := by
  refine keeps_then (safe_forM fun _ _ => safe_instruction _) fun _ => ?_
  extract_lets afterType
  have hafter : ∀ u, Keeps (afterType u) Node.Clean := by
    intro _
    refine keeps_then (safe_forM fun _ _ => safe_instruction _) fun _ => ?_
    refine keeps_then (safe_require _) fun _ => ?_
    refine keeps_bind (keeps_build _ _ (keeps_contentReference maxEntityDepth)
      (fun t ht => hts t (mem_of_mem_splitRoot ht)) clean_empty) fun ns hns => ?_
    split
    · exact keeps_pure (hns _ (by simp))
    · exact keeps_failure
  split
  · rename_i type htype
    refine keeps_then (safe_modify fun _ hp => hp.with_same rfl rfl rfl) fun _ => ?_
    exact keeps_then (safe_forM fun d hd => safe_declare _ (hprolog type htype d hd)) hafter
  · exact hafter ()

end Check

/-- The root element of a document holds only characters of documents. -/
theorem clean_readDocument {text : String} {root : Node} (h : readDocument text = some root) :
    root.Clean := by
  unfold readDocument at h
  obtain ⟨_,hguard,h⟩ := Option.bind_eq_some_iff.mp h
  obtain ⟨t,ht,h⟩ := Option.bind_eq_some_iff.mp h
  obtain ⟨ts,hts,h⟩ := Option.bind_eq_some_iff.mp h
  obtain ⟨⟨root',p⟩,hdoc,h⟩ := Option.bind_eq_some_iff.mp h
  obtain ⟨_,-,hroot⟩ := Option.bind_eq_some_iff.mp h
  have hcs : Clean (Text.unifyLineEnds (Text.withoutMark text.toList)) := by
    by_cases hall : (Text.unifyLineEnds (Text.withoutMark text.toList)).all isChar = true
    · exact List.all_eq_true.mp hall
    · have hnone : (none : Option Unit) = some _ := (if_neg hall).symm.trans hguard
      cases hnone
  have hprolog := Reader.gives_prolog _ hcs t ht
  have htokens := clean_tokens? (hcs.of_suffix t.rest_suffix) hts
  obtain rfl := Option.some.inj hroot
  exact (Check.keeps_document hprolog htokens _ ⟨by simp,by simp,by simp⟩ _ _ hdoc).1

mutual

theorem Node.Clean.innerText : ∀ {node : Node}, node.Clean → Markup.Clean node.innerText.toList
  | .element name attributes children, .element _ hchildren => clean_innerTexts hchildren
  | .text shown, .text h => h
  | .reference entity, .reference h => by
    have hshown : Markup.Clean (['&'] ++ entity.toList ++ [';']) :=
      Clean.append (Clean.append (clean_singleton (by decide)) h)
        (clean_singleton (by decide))
    simpa [Node.innerText] using hshown

theorem clean_innerTexts : ∀ {nodes : List Node}, (∀ n ∈ nodes, n.Clean) →
    Clean (Node.innerTexts nodes).toList
  | [], _ => fun c hc => by simp [Node.innerTexts] at hc
  | node :: rest, h => by
    have hrest : Clean (Node.innerTexts rest).toList :=
      clean_innerTexts fun n hn => h n (by simp [hn])
    have hnode : Clean node.innerText.toList := Node.Clean.innerText (h node (by simp))
    rw [Node.innerTexts,String.toList_append]
    exact hnode.append hrest

end

end TypedResources.Markup

namespace TypedResources

/-- Everything that a doc comment shows of the entry can be written as markup. -/
structure Entry.Clean (e : Entry) : Prop where
  name : ∀ s ∈ e.name, Markup.Clean s.toList
  value : ∀ s ∈ e.value, Markup.Clean s.toList
  comment : ∀ s ∈ e.comment, Markup.Clean s.toList

theorem clean_attribute? {node : Markup.Node} (h : node.Clean) {name value : String}
    (hv : node.attribute? name = some value) : Markup.Clean value.toList := by
  cases h with
  | element hattributes _ =>
    obtain ⟨a,ha,rfl⟩ := Option.map_eq_some_iff.mp hv
    exact hattributes a (List.mem_of_find?_eq_some ha)
  | text _ => simp [Markup.Node.attribute?] at hv
  | reference _ => simp [Markup.Node.attribute?] at hv

theorem clean_children {node : Markup.Node} (h : node.Clean) : ∀ n ∈ node.children, n.Clean := by
  cases h with
  | element _ hchildren => exact hchildren
  | text _ => exact fun n hn => by simp [Markup.Node.children] at hn
  | reference _ => exact fun n hn => by simp [Markup.Node.children] at hn

theorem clean_entryOf {node : Markup.Node} (h : node.Clean) : (Resx.entryOf node).Clean := by
  refine ⟨fun s hs => clean_attribute? h hs,?_,fun s hs => clean_attribute? h hs⟩
  intro s hs
  obtain ⟨n,hn,rfl⟩ := Option.map_eq_some_iff.mp hs
  exact (clean_children h n (List.mem_of_find?_eq_some hn)).innerText

/-- Whatever document is read, its entries hold only characters of documents. -/
theorem clean_parse {text : String} {entries : List Entry} (h : Resx.parse text = some entries) :
    ∀ e ∈ entries, e.Clean := by
  obtain ⟨root,hroot,rfl⟩ := Option.map_eq_some_iff.mp h
  have hclean := Markup.clean_readDocument hroot
  intro e he
  unfold Resx.entriesOf at he
  split at he
  · obtain ⟨node,hnode,rfl⟩ := List.mem_map.mp he
    exact clean_entryOf (clean_children hclean node (List.mem_filter.mp hnode).1)
  · simp at he

end TypedResources

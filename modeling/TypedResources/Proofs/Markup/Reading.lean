import TypedResources.Markup.Prolog
import TypedResources.Markup.Token

/-! Readers take their values from the text: whatever is read from characters that a document can
hold consists of such characters again. -/
namespace TypedResources.Markup

/-- All characters are ones that a document can hold. -/
def Clean (cs : List Char) : Prop := ∀ c ∈ cs, isChar c = true

theorem Clean.of_suffix {rest cs : List Char} (h : Clean cs) (hs : rest <:+ cs) : Clean rest :=
  fun c hc => h c (hs.subset hc)

theorem Clean.cons {c : Char} {cs : List Char} (hc : isChar c = true) (h : Clean cs) :
    Clean (c :: cs) := by
  intro d hd
  rcases List.mem_cons.mp hd with rfl | hd
  · exact hc
  · exact h d hd

theorem clean_singleton {c : Char} (h : isChar c = true) : Clean [c] :=
  Clean.cons h fun _ hd => by simp at hd

theorem Clean.append {xs ys : List Char} (hx : Clean xs) (hy : Clean ys) : Clean (xs ++ ys) := by
  intro c hc
  rcases List.mem_append.mp hc with hc | hc
  · exact hx c hc
  · exact hy c hc

theorem Clean.flatten {parts : List (List Char)} (h : ∀ part ∈ parts, Clean part) :
    Clean parts.flatten := by
  intro c hc
  obtain ⟨part,hpart,hc⟩ := List.mem_flatten.mp hc
  exact h part hpart c hc

def Piece.Clean : Piece → Prop
  | .plain c | .coded c => isChar c = true
  | .entity name => Markup.Clean name.toList

namespace Reader

variable {α β : Type}

/-- What is read from a clean text has the property. -/
def Gives (r : Reader α) (P : α → Prop) : Prop :=
  ∀ input, Clean input → ∀ t, r input = some t → P t.value

theorem gives_pure {P : α → Prop} {a : α} (h : P a) : (pure a : Reader α).Gives P := by
  intro input _ t ht
  obtain rfl := Option.some.inj ht
  exact h

theorem gives_bind {r : Reader α} {next : α → Reader β} {P : α → Prop} {Q : β → Prop}
    (hr : r.Gives P) (hnext : ∀ a, P a → (next a).Gives Q) : (r >>= next).Gives Q := by
  intro input hi u hu
  simp only [bind] at hu
  split at hu
  · simp at hu
  · rename_i t ht
    split at hu
    · simp at hu
    · rename_i v hv
      obtain rfl := Option.some.inj hu
      exact hnext t.value (hr input hi t ht) t.rest (hi.of_suffix t.rest_suffix) v hv

/-- The value of the first reader does not matter. -/
theorem gives_skip {r : Reader α} {next : α → Reader β} {Q : β → Prop}
    (hnext : ∀ a, (next a).Gives Q) : (r >>= next).Gives Q :=
  gives_bind (P := fun _ => True) (fun _ _ _ _ => trivial) fun a _ => hnext a

theorem gives_fail {P : α → Prop} : (fail : Reader α).Gives P := by
  intro input _ t ht
  simp [fail] at ht

theorem gives_ofOption {o : Option α} {P : α → Prop} (h : ∀ a, o = some a → P a) :
    (ofOption o).Gives P := by
  cases o with
  | none => exact gives_fail
  | some a => exact gives_pure (h a rfl)

theorem gives_takeWhile (p : Char → Bool) : (takeWhile p).Gives Clean := by
  intro input hi t ht
  obtain rfl := Option.some.inj ht
  exact fun c hc => hi c ((List.takeWhile_prefix p).subset hc)

theorem gives_untilMark (mark : List Char) : Gives (untilMark mark) Clean := by
  intro input
  induction input with
  | nil =>
    intro _ t ht
    obtain ⟨u,-,rfl⟩ := Option.map_eq_some_iff.mp ht
    exact fun c hc => by simp at hc
  | cons c rest ih =>
    intro hi t ht
    rw [untilMark] at ht
    split at ht
    · obtain rfl := Option.some.inj ht
      exact fun c hc => by simp at hc
    · obtain ⟨u,hu,rfl⟩ := Option.map_eq_some_iff.mp ht
      have hrest : Clean rest := hi.of_suffix (List.suffix_cons c rest)
      exact Clean.cons (hi c (by simp)) (ih hrest u hu)

theorem gives_upTo (mark : String) : (upTo mark).Gives Clean := gives_untilMark mark.toList

theorem gives_quoted : quoted.Gives Clean := by
  refine gives_skip fun b => ?_
  cases b with
  | false => exact gives_skip fun _ => gives_upTo _
  | true => exact gives_upTo _

/-- Items that are read from clean texts after a clean first character. -/
theorem gives_many {begins : Char → Bool} {item : Char → Reader α} {P : α → Prop}
    (h : ∀ c, isChar c = true → (item c).Gives P) :
    (many begins item).Gives fun as => ∀ a ∈ as, P a := by
  intro input
  -- the induction is on the length, since an item can take any part of the rest
  induction hn : input.length using Nat.strongRecOn generalizing input with
  | ind n ih =>
    intro hi t ht
    cases input with
    | nil =>
      simp only [many] at ht
      obtain rfl := Option.some.inj ht
      exact fun a ha => by simp at ha
    | cons c rest =>
      have hrest : Clean rest := hi.of_suffix (List.suffix_cons c rest)
      rw [many] at ht
      split at ht
      · split at ht
        · simp at ht
        · rename_i u hu
          split at ht
          · simp at ht
          · rename_i v hv
            obtain rfl := Option.some.inj ht
            have hlt : u.rest.length < n := by
              have hle := u.rest_le
              simp only [List.length_cons] at hn
              omega
            have hv := ih u.rest.length hlt u.rest rfl (hrest.of_suffix u.rest_suffix) v hv
            intro a ha
            rcases List.mem_cons.mp ha with rfl | ha
            · exact h c (hi c (by simp)) rest hrest u hu
            · exact hv a ha
      · obtain rfl := Option.some.inj ht
        exact fun a ha => by simp at ha

theorem readAll_of_gives {r : Reader α} {P : α → Prop} (h : r.Gives P) {input : List Char}
    (hi : Clean input) {a : α} (ha : readAll r input = some a) : P a := by
  unfold readAll at ha
  split at ha
  · rename_i value _ ht
    obtain rfl := Option.some.inj ha
    exact h input hi _ ht
  · simp at ha

theorem gives_boundedName {cs : List Char} (h : Clean cs) :
    (boundedName cs).Gives fun s => Clean s.toList := by
  refine gives_skip fun _ => gives_pure ?_
  rwa [String.toList_ofList]

theorem gives_name : name.Gives fun s => Clean s.toList :=
  gives_bind (gives_takeWhile _) fun _ hcs => gives_skip fun _ => gives_boundedName hcs

theorem isChar_of_charOfCode? {n : Nat} {c : Char} (h : charOfCode? n = some c) :
    isChar c = true := by
  unfold charOfCode? at h
  by_cases hvalid : n.isValidChar
  · rw [dif_pos hvalid] at h
    by_cases hc : isChar (Char.ofNatAux n hvalid) = true
    · rw [if_pos hc] at h
      obtain rfl := Option.some.inj h
      exact hc
    · rw [if_neg hc] at h
      cases h
  · rw [dif_neg hvalid] at h
    cases h

theorem gives_charReference : charReference.Gives fun c => isChar c = true :=
  gives_skip fun _ => gives_skip fun _ => gives_skip fun _ =>
    gives_ofOption fun _ => isChar_of_charOfCode?

theorem gives_reference : reference.Gives Piece.Clean := by
  refine gives_skip fun b => ?_
  cases b with
  | false => exact gives_bind gives_name fun _ hname => gives_skip fun _ => gives_pure hname
  | true => exact gives_bind gives_charReference fun _ hc => gives_pure hc

theorem gives_piece {first : Char} (h : isChar first = true) : (piece first).Gives Piece.Clean := by
  unfold piece
  split
  · exact gives_reference
  · exact gives_pure h

end Reader

theorem clean_pieces? {cs : List Char} (h : Clean cs) {ps : List Piece}
    (hp : pieces? cs = some ps) : ∀ p ∈ ps, p.Clean :=
  Reader.readAll_of_gives (Reader.gives_many fun _ => Reader.gives_piece) h hp

theorem Piece.Clean.replacement {p : Piece} (h : p.Clean) : Markup.Clean p.replacement := by
  cases p with
  | plain c => exact clean_singleton h
  | coded c => exact clean_singleton h
  | entity name => exact Clean.cons (by decide) (Clean.append h (clean_singleton (by decide)))

namespace Reader

theorem gives_attributeLiteral : attributeLiteral.Gives fun ps => ∀ p ∈ ps, p.Clean :=
  gives_bind gives_quoted fun _ hcs => gives_skip fun _ => gives_ofOption fun _ => clean_pieces? hcs

theorem gives_entityLiteral : entityLiteral.Gives Clean := by
  refine gives_bind gives_quoted fun cs hcs => gives_skip fun _ => ?_
  refine gives_bind (gives_ofOption fun _ => clean_pieces? hcs) fun ps hps => gives_pure ?_
  intro c hc
  obtain ⟨p,hp,hc⟩ := List.mem_flatMap.mp hc
  exact (hps p hp).replacement c hc

end Reader

def Token.Clean : Token → Prop
  | .text cs | .section cs => Markup.Clean cs
  | .reference piece => piece.Clean
  | .opening _ attributes _ => ∀ a ∈ attributes, ∀ p ∈ a.value, p.Clean
  | _ => True

namespace Reader

theorem gives_tagPart : tagPart.Gives fun part => ∀ a ∈ part, ∀ p ∈ a.value, p.Clean := by
  refine gives_skip fun _ => gives_skip fun next => ?_
  split
  · exact gives_pure fun a ha => by simp at ha
  · exact gives_pure fun a ha => by simp at ha
  · refine gives_skip fun _ => gives_skip fun _ => gives_skip fun _ => gives_skip fun _ => ?_
    refine gives_bind gives_attributeLiteral fun ps hps => gives_pure ?_
    intro a ha
    obtain rfl := Option.some.inj ha
    exact hps

theorem gives_openingTag : openingTag.Gives Token.Clean := by
  refine gives_skip fun _ => gives_bind (gives_many fun _ _ => gives_tagPart) fun parts hparts => ?_
  refine gives_skip fun _ => gives_skip fun _ => gives_pure ?_
  intro a ha
  obtain ⟨part,hpart,he⟩ := List.mem_filterMap.mp ha
  exact hparts part hpart a he

theorem gives_closingTag : closingTag.Gives Token.Clean :=
  gives_skip fun _ => gives_skip fun _ => gives_skip fun _ => gives_pure trivial

theorem gives_markup : markup.Gives Token.Clean := by
  refine gives_skip fun b => ?_
  cases b with
  | true => exact gives_closingTag
  | false =>
    refine gives_skip fun b => ?_
    cases b with
    | true => exact gives_skip fun _ => gives_pure trivial
    | false =>
      refine gives_skip fun b => ?_
      cases b with
      | true => exact gives_bind (gives_upTo _) fun _ hcs => gives_pure hcs
      | false =>
        refine gives_skip fun b => ?_
        cases b with
        | true => exact gives_skip fun _ => gives_pure trivial
        | false => exact gives_openingTag

theorem gives_token {first : Char} (h : isChar first = true) : (token first).Gives Token.Clean := by
  unfold token
  split
  · exact gives_markup
  · split
    · exact gives_bind gives_reference fun _ hp => gives_pure hp
    · refine gives_bind (gives_takeWhile _) fun rest hrest => gives_skip fun _ => gives_pure ?_
      exact Clean.cons h hrest

end Reader

theorem clean_tokens? {cs : List Char} (h : Clean cs) {ts : List Token}
    (ht : tokens? cs = some ts) : ∀ t ∈ ts, t.Clean :=
  Reader.readAll_of_gives (Reader.gives_many fun _ => Reader.gives_token) h ht

def EntityContent.Clean : EntityContent → Prop
  | .internal text => Markup.Clean text
  | _ => True

def AttributeRule.Clean (rule : AttributeRule) : Prop := ∀ ps ∈ rule.default, ∀ p ∈ ps, p.Clean

def Declaration.Clean : Declaration → Prop
  | .entity _ content | .parameter _ content => content.Clean
  | .attributes _ rules => ∀ rule ∈ rules, rule.Clean
  | _ => True

namespace Reader

theorem gives_entityContent : entityContent.Gives EntityContent.Clean := by
  refine gives_skip fun external => ?_
  cases external with
  | some systemId => exact gives_skip fun _ => gives_pure trivial
  | none => exact gives_bind gives_entityLiteral fun _ hcs => gives_pure hcs

theorem gives_entityDeclaration : entityDeclaration.Gives Declaration.Clean := by
  refine gives_skip fun _ => gives_skip fun isParameter => ?_
  extract_lets afterMark
  have hmark : ∀ u, (afterMark u).Gives Declaration.Clean := by
    intro _
    refine gives_skip fun name => gives_skip fun _ => ?_
    refine gives_bind gives_entityContent fun content hc => gives_skip fun spaced => ?_
    split
    · exact gives_skip fun _ => gives_pure hc
    · extract_lets afterContent
      have hcontent : ∀ b, (afterContent b).Gives Declaration.Clean := by
        intro b
        cases b with
        | true =>
          exact gives_skip fun _ => gives_skip fun _ => gives_skip fun _ => gives_skip fun _ =>
            gives_pure trivial
        | false => exact gives_skip fun _ => gives_pure hc
      split <;> exact gives_skip hcontent
  split
  · exact gives_skip hmark
  · exact hmark ()

theorem gives_attributeDefault :
    attributeDefault.Gives fun d => ∀ ps ∈ d, ∀ p ∈ ps, p.Clean := by
  have hliteral : Gives (do return some (← attributeLiteral))
      fun d => ∀ ps ∈ d, ∀ p ∈ ps, p.Clean := by
    refine gives_bind gives_attributeLiteral fun ps hps => gives_pure ?_
    intro qs hqs
    obtain rfl := Option.some.inj hqs
    exact hps
  refine gives_skip fun b => ?_
  cases b with
  | true => exact gives_pure fun _ h => by simp at h
  | false =>
    refine gives_skip fun b => ?_
    cases b with
    | true => exact gives_pure fun _ h => by simp at h
    | false =>
      refine gives_skip fun b => ?_
      cases b with
      | true => exact gives_skip fun _ => hliteral
      | false => exact hliteral

theorem gives_attributeRule : attributeRule.Gives fun part => ∀ rule ∈ part, rule.Clean := by
  refine gives_skip fun _ => gives_skip fun b => ?_
  cases b with
  | true => exact gives_pure fun _ h => by simp at h
  | false =>
    refine gives_skip fun _ => gives_skip fun _ => gives_skip fun _ => gives_skip fun _ => ?_
    refine gives_bind gives_attributeDefault fun d hd => gives_pure ?_
    intro rule hrule
    obtain rfl := Option.some.inj hrule
    exact hd

theorem gives_attributeList : attributeList.Gives Declaration.Clean := by
  refine gives_skip fun _ => gives_skip fun _ => ?_
  refine gives_bind (gives_many fun _ _ => gives_attributeRule) fun parts hparts => ?_
  refine gives_skip fun _ => gives_pure ?_
  intro rule hrule
  obtain ⟨part,hpart,he⟩ := List.mem_filterMap.mp hrule
  exact hparts part hpart rule he

theorem gives_elementDeclaration : elementDeclaration.Gives Declaration.Clean := by
  refine gives_skip fun _ => gives_skip fun _ => gives_skip fun _ => gives_skip fun _ => ?_
  extract_lets afterModel
  have hmodel : ∀ u, (afterModel u).Gives Declaration.Clean :=
    fun _ => gives_skip fun _ => gives_skip fun _ => gives_pure trivial
  split
  · exact hmodel ()
  · refine gives_skip fun _ => ?_
    split
    · exact hmodel ()
    · refine gives_skip fun _ => gives_skip fun _ => gives_skip fun _ => ?_
      split <;> exact gives_skip hmodel

theorem gives_notationDeclaration : notationDeclaration.Gives Declaration.Clean :=
  gives_skip fun _ => gives_skip fun _ => gives_skip fun _ => gives_skip fun _ =>
    gives_skip fun _ => gives_skip fun _ => gives_pure trivial

theorem gives_declaration (first : Char) : (declaration first).Gives Declaration.Clean := by
  unfold declaration
  split
  · exact gives_skip fun _ => gives_skip fun _ => gives_pure trivial
  · split
    · refine gives_skip fun b => ?_
      cases b with
      | true => exact gives_skip fun _ => gives_pure trivial
      | false =>
        refine gives_skip fun b => ?_
        cases b with
        | true => exact gives_skip fun _ => gives_pure trivial
        | false =>
          refine gives_skip fun b => ?_
          cases b with
          | true => exact gives_entityDeclaration
          | false =>
            refine gives_skip fun b => ?_
            cases b with
            | true => exact gives_attributeList
            | false =>
              refine gives_skip fun b => ?_
              cases b with
              | true => exact gives_elementDeclaration
              | false => exact gives_skip fun _ => gives_notationDeclaration
    · exact gives_pure trivial

theorem gives_declarations : declarations.Gives fun ds => ∀ d ∈ ds, d.Clean :=
  gives_many fun _ _ => gives_declaration _

theorem gives_documentType : documentType.Gives fun type => ∀ d ∈ type.declarations, d.Clean := by
  refine gives_skip fun _ => gives_skip fun _ => gives_skip fun _ => gives_skip fun external => ?_
  refine gives_skip fun _ => gives_skip fun _ => ?_
  extract_lets afterPart
  have hpart : ∀ ds : List Declaration, (∀ d ∈ ds, d.Clean) →
      (afterPart ds).Gives fun type => ∀ d ∈ type.declarations, d.Clean :=
    fun _ hds => gives_skip fun _ => gives_pure hds
  split
  · refine gives_bind gives_declarations fun ds hds => gives_skip fun _ => gives_skip fun _ => ?_
    exact gives_bind (gives_pure hds) hpart
  · exact gives_bind (gives_pure fun _ h => by simp at h) hpart

theorem gives_prolog :
    prolog.Gives fun p => ∀ type ∈ p.documentType, ∀ d ∈ type.declarations, d.Clean := by
  refine gives_skip fun _ => ?_
  extract_lets afterStart
  have hstart : ∀ b, (afterStart b).Gives
      fun p => ∀ type ∈ p.documentType, ∀ d ∈ type.declarations, d.Clean := by
    intro _
    refine gives_skip fun _ => gives_skip fun _ => ?_
    split
    · refine gives_bind gives_documentType fun type htype => gives_skip fun _ => gives_pure ?_
      intro found hfound
      obtain rfl := Option.some.inj hfound
      exact htype
    · exact gives_pure fun _ h => by simp at h
  split
  · exact gives_skip fun _ => gives_skip hstart
  · exact gives_skip hstart

end Reader

theorem clean_declarations? {cs : List Char} (h : Clean cs) {ds : List Declaration}
    (hd : declarations? cs = some ds) : ∀ d ∈ ds, d.Clean :=
  Reader.readAll_of_gives Reader.gives_declarations h hd

end TypedResources.Markup

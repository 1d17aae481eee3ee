import TypedResources.Proofs.Yaml.Course
import TypedResources.Yaml.Layout

/-! Reading tokens from a text only moves forward, and what can be wrong with the text is its form,
with one exception: an escape between double quotes can write a number that no character has. -/
namespace TypedResources.Yaml

/-- What is wrong with a number that no character has. -/
def NoCharacter (n : Nat) (fault : Fault) : Prop :=
  (0x80000000 ≤ n ∧ fault = .hugeCharacter) ∨
    (0x110000 ≤ n ∧ n < 0x80000000 ∧ fault = .noCharacter) ∨
    (0xD800 ≤ n ∧ n ≤ 0xDFFF ∧ fault = .surrogate)

/-- Somewhere the text has an escape for a number that no character has. -/
def EscapesNoCharacter (cs : List Char) (fault : Fault) : Prop :=
  ∃ before letter digits after n, cs = before ++ '\\' :: letter :: (digits ++ after) ∧
    Scan.escapeWidth? letter = some digits.length ∧ Number.ofDigits? 16 digits = some n ∧
    NoCharacter n fault

/-- Only half of a surrogate pair is left out among these. -/
theorem surrogate_of_escapes {cs : List Char} {fault : Fault} (h : EscapesNoCharacter cs fault)
    (hout : fault.isLeftOut = true) : fault = .surrogate := by
  obtain ⟨_,_,_,_,_,_,_,_,⟨_,rfl⟩ | ⟨_,_,rfl⟩ | ⟨_,_,rfl⟩⟩ := h
  · cases hout
  · cases hout
  · rfl

theorem EscapesNoCharacter.of_suffix {rest cs : List Char} {fault : Fault}
    (h : EscapesNoCharacter rest fault) (hs : rest <:+ cs) : EscapesNoCharacter cs fault := by
  obtain ⟨before,letter,digits,after,n,rfl,hwidth,hn,hfault⟩ := h
  obtain ⟨front,rfl⟩ := hs
  exact ⟨front ++ before,letter,digits,after,n,by simp,hwidth,hn,hfault⟩

theorem Cursor.next_rest (c : Cursor) : c.next.rest = c.rest.tail := by
  unfold next
  split
  · rename_i h
    rw [h,List.tail_nil]
  · rename_i h
    rw [h,List.tail_cons]
    split
    · rfl
    · split <;> rfl

namespace Scan

open Course

variable {α β : Type}

/-- Readers move forward in the text, and what they find wrong besides its form are its escapes. -/
def forward : Course Cursor where
  leads c c' := c'.rest <:+ c.rest
  wrong c := EscapesNoCharacter c.rest
  refl c := List.suffix_refl c.rest
  trans h h' := h'.trans h
  stable h hfault := hfault.of_suffix h

section Steps

variable {c : Cursor} {Q : Fault → Prop}

theorem goesOn_refuse : forward.GoesOn (refuse : Scan α) c Q := goesOn_throw (.inl rfl)

theorem goesOn_ahead : forward.GoesOn ahead c Q :=
  goesOn_bind goesOn_get fun _ _ _ => goesOn_pure _

theorem goesOn_require (condition : Bool) : forward.GoesOn (require condition) c Q := by
  unfold require
  split
  · exact goesOn_pure ()
  · exact goesOn_refuse

theorem repeat_next_rest (count : Nat) (c : Cursor) :
    (Nat.repeat Cursor.next count c).rest <:+ c.rest := by
  induction count with
  | zero => exact List.suffix_refl _
  | succ count ih =>
    rw [Nat.repeat,Cursor.next_rest]
    exact (List.tail_suffix _).trans ih

theorem goesOn_skip (count : Nat) : forward.GoesOn (skip count) c Q :=
  goesOn_modify (repeat_next_rest count c)

end Steps

theorem holds_refuse : forward.Holds (refuse : Scan α) := fun _ => goesOn_refuse

theorem holds_ahead : forward.Holds ahead := fun _ => goesOn_ahead

theorem holds_require (condition : Bool) : forward.Holds (require condition) :=
  fun _ => goesOn_require condition

/-- What lies ahead is tested before the rest is read. -/
theorem holds_check {m : Scan α} (test : List Char → Bool) (h : forward.Holds m) :
    forward.Holds (do require (test (← ahead)); m) :=
  holds_bind holds_ahead fun _ => holds_bind (holds_require _) fun _ => h

theorem holds_skip (count : Nat) : forward.Holds (skip count) := fun _ => goesOn_skip count

theorem past_rest (p : Char → Bool) (c : Cursor) : (c.past p).rest <:+ c.rest := by
  have hall : ∀ (xs : List Char) (c : Cursor), (xs.foldl (fun c _ => c.next) c).rest <:+ c.rest := by
    intro xs
    induction xs with
    | nil => exact fun c => List.suffix_refl _
    | cons x xs ih =>
      intro c
      refine (ih c.next).trans ?_
      rw [Cursor.next_rest]
      exact List.tail_suffix _
  exact hall _ c

theorem holds_takeWhile (p : Char → Bool) : forward.Holds (takeWhile p) :=
  holds_bind holds_ahead fun _ =>
    holds_bind (holds_modify (past_rest p)) fun _ => holds_pure _

theorem holds_takeIf (p : Char → Bool) : forward.Holds (takeIf p) := by
  refine holds_bind holds_ahead fun cs => ?_
  split
  · exact holds_ite (holds_bind (holds_skip 1) fun _ => holds_pure _) (holds_pure _)
  · exact holds_pure _

theorem holds_expect (c : Char) : forward.Holds (expect c) :=
  holds_bind (holds_takeIf _) fun _ => holds_require _

theorem holds_lineBreak : forward.Holds lineBreak :=
  holds_bind (holds_takeIf _) fun _ => holds_pure _

theorem holds_restOfLine : forward.Holds restOfLine := by
  refine holds_bind (holds_takeWhile _) fun _ => holds_bind holds_ahead fun cs => ?_
  have hend : forward.Holds (do require (endsLine (← ahead)); let _ ← lineBreak : Scan Unit) :=
    holds_check _ (holds_bind holds_lineBreak fun _ => holds_pure _)
  exact holds_ite (holds_bind (holds_takeWhile _) fun _ => hend) hend

theorem holds_pieces {piece : Scan (Option (List α))} (h : forward.Holds piece) :
    forward.Holds (pieces piece) := by
  have hwithin : ∀ bound, forward.Holds (piecesWithin piece bound) := by
    intro bound
    induction bound with
    | zero => exact holds_refuse
    | succ bound ih =>
      refine holds_bind h fun items => ?_
      cases items with
      | none => exact holds_pure _
      | some items => exact holds_bind ih fun _ => holds_pure _
  exact holds_bind holds_ahead fun _ => hwithin _

theorem holds_untilDone {σ : Type} {step : σ → Scan (σ ⊕ α)} (h : ∀ s, forward.Holds (step s))
    (s : σ) : forward.Holds (untilDone step s) := by
  have hwithin : ∀ bound s, forward.Holds (repeatWithin step bound s) := by
    intro bound
    induction bound with
    | zero => exact fun _ => holds_refuse
    | succ bound ih =>
      intro s
      refine holds_bind (h s) fun r => ?_
      cases r with
      | inl s => exact ih s
      | inr a => exact holds_pure a
  exact holds_bind holds_ahead fun _ => hwithin _ s

theorem holds_foldedBreaks : forward.Holds foldedBreaks :=
  holds_pieces <| holds_check _ <|
    holds_bind (holds_takeWhile _) fun _ => holds_bind holds_lineBreak fun _ => holds_pure _

theorem holds_quotedSpace : forward.Holds quotedSpace := by
  refine holds_bind (holds_takeWhile _) fun spaces => ?_
  refine holds_bind holds_lineBreak fun ended => ?_
  cases ended with
  | none => exact holds_pure _
  | some c => exact holds_bind holds_foldedBreaks fun _ => holds_pure _

theorem ahead_eq_ok {c c' : Cursor} {cs : List Char} (h : ahead c = .ok (cs,c')) :
    cs = c.rest ∧ c' = c := by
  obtain ⟨rfl,rfl⟩ := Prod.mk.inj (Except.ok.inj h)
  exact ⟨rfl,rfl⟩

theorem require_eq_ok {condition : Bool} {c c' : Cursor} {u : Unit}
    (h : require condition c = .ok (u,c')) : condition = true ∧ c' = c := by
  cases condition with
  | false => cases h
  | true =>
    obtain ⟨-,rfl⟩ := Prod.mk.inj (Except.ok.inj h)
    exact ⟨rfl,rfl⟩

theorem skip_one_eq_ok {c c' : Cursor} {u : Unit} (h : skip 1 c = .ok (u,c')) :
    c'.rest = c.rest.tail := by
  obtain ⟨-,rfl⟩ := Prod.mk.inj (Except.ok.inj h)
  exact Cursor.next_rest c

theorem goesOn_charOfCode (n : Nat) (c : Cursor) : forward.GoesOn (charOfCode n) c (NoCharacter n) := by
  unfold charOfCode
  by_cases hhuge : 0x80000000 ≤ n
  · rw [if_pos hhuge]
    exact goesOn_throw (.inr (.inl ⟨hhuge,rfl⟩))
  rw [if_neg hhuge]
  by_cases hbeyond : 0x110000 ≤ n
  · rw [if_pos hbeyond]
    exact goesOn_throw (.inr (.inr (.inl ⟨hbeyond,Nat.lt_of_not_le hhuge,rfl⟩)))
  rw [if_neg hbeyond]
  by_cases h : n.isValidChar
  · rw [dif_pos h]
    exact goesOn_pure _
  · rw [dif_neg h]
    have hhalf : 0xD800 ≤ n ∧ n ≤ 0xDFFF := by
      unfold Nat.isValidChar at h
      omega
    exact goesOn_throw (.inr (.inr (.inr ⟨hhalf.1,hhalf.2,rfl⟩)))

/-- The text begins with so many digits of a number that no character has. -/
def StartsWithNoCharacter (width : Nat) (cs : List Char) (fault : Fault) : Prop :=
  ∃ digits after n, cs = digits ++ after ∧ digits.length = width ∧
    Number.ofDigits? 16 digits = some n ∧ NoCharacter n fault

theorem goesOn_codedChar (width : Nat) (c : Cursor) :
    forward.GoesOn (codedChar width) c (StartsWithNoCharacter width c.rest) := by
  refine goesOn_bind goesOn_ahead fun cs c' h => ?_
  obtain ⟨rfl,rfl⟩ := ahead_eq_ok h
  refine goesOn_bind (goesOn_require _) fun _ c' h => ?_
  obtain ⟨hwidth,rfl⟩ := require_eq_ok h
  split
  · rename_i n hn
    have hcode := (goesOn_charOfCode n c').mono fun fault hfault =>
      (⟨_,_,n,(List.take_append_drop width c'.rest).symm,of_decide_eq_true hwidth,hn,hfault⟩ :
        StartsWithNoCharacter width c'.rest fault)
    exact goesOn_bind hcode fun _ _ _ => goesOn_bind (goesOn_skip width) fun _ _ _ => goesOn_pure _
  · exact goesOn_refuse

/-- The text begins with a letter and the digits that it asks for. -/
def StartsWithCoded (cs : List Char) (fault : Fault) : Prop :=
  ∃ letter rest width, cs = letter :: rest ∧ escapeWidth? letter = some width ∧
    StartsWithNoCharacter width rest fault

theorem goesOn_escape (c : Cursor) : forward.GoesOn escape c fun fault =>
    StartsWithCoded c.rest fault ∨ EscapesNoCharacter c.rest fault := by
  refine goesOn_bind goesOn_ahead fun cs c' h => ?_
  obtain ⟨rfl,rfl⟩ := ahead_eq_ok h
  split
  · exact goesOn_refuse
  · rename_i letter rest hrest
    split
    · exact goesOn_bind (goesOn_skip 1) fun _ _ _ => goesOn_pure _
    · rename_i width _ hwidth
      refine goesOn_bind (goesOn_skip 1) fun _ c'' h => ?_
      have hrest' : c''.rest = rest := by rw [skip_one_eq_ok h,hrest,List.tail_cons]
      refine goesOn_bind ((goesOn_codedChar width c'').mono fun fault hfault => ?_)
        fun _ _ _ => goesOn_pure _
      exact .inl ⟨letter,rest,width,hrest,hwidth,hrest' ▸ hfault⟩
    · have hbreak : forward.Holds (do let _ ← lineBreak; foldedBreaks) :=
        holds_bind holds_lineBreak fun _ => holds_foldedBreaks
      split
      · exact (hbreak c').mono fun _ => .inr
      · exact goesOn_refuse

/-- What follows a backslash. -/
theorem StartsWithCoded.behind {rest : List Char} {fault : Fault} (h : StartsWithCoded rest fault) :
    EscapesNoCharacter ('\\' :: rest) fault := by
  obtain ⟨letter,_,_,rfl,hwidth,digits,after,n,rfl,rfl,hn,hfault⟩ := h
  exact ⟨[],letter,digits,after,n,rfl,hwidth,hn,hfault⟩

theorem holds_quotedPiece (quote : Char) : forward.Holds (quotedPiece quote) := by
  intro c
  refine goesOn_bind goesOn_ahead fun cs c' h => ?_
  obtain ⟨rfl,rfl⟩ := ahead_eq_ok h
  split
  · exact goesOn_refuse
  · rename_i x rest hrest
    split
    · split <;> exact goesOn_bind (goesOn_skip _) fun _ _ _ => goesOn_pure _
    · split
      · rename_i hescape
        -- the fault lies in the digits further on; the backslash before them was read here
        obtain rfl : x = '\\' := by simp_all
        refine goesOn_bind (goesOn_skip 1) fun _ c'' h => ?_
        have hrest' : c''.rest = rest := by rw [skip_one_eq_ok h,hrest,List.tail_cons]
        refine goesOn_bind ((goesOn_escape c'').mono fun fault hfault => ?_)
          fun _ _ _ => goesOn_pure _
        rw [hrest'] at hfault
        change EscapesNoCharacter c'.rest fault
        rw [hrest]
        exact hfault.elim StartsWithCoded.behind fun he => he.of_suffix (List.suffix_cons _ rest)
      · have hspace : forward.Holds (do return some (← quotedSpace)) :=
          holds_bind holds_quotedSpace fun _ => holds_pure _
        split
        · exact hspace c'
        · have hword : forward.Holds (do skip 1; return some (x :: (← takeWhile fun x =>
              x ≠ '\'' && x ≠ '"' && x ≠ '\\' && !isSpaceOrTab x && !isBreak x))) :=
            holds_bind (holds_skip 1) fun _ => holds_bind (holds_takeWhile _) fun _ =>
              holds_pure _
          exact hword c'

theorem holds_quoted (quote : Char) : forward.Holds (quoted quote) :=
  holds_bind (holds_skip 1) fun _ =>
    holds_bind (holds_pieces (holds_quotedPiece quote)) fun _ => holds_pure _

theorem holds_plainBreaks : forward.Holds plainBreaks := by
  refine holds_untilDone (fun breaks => ?_) _
  refine holds_bind holds_ahead fun cs => holds_bind holds_get fun c => ?_
  refine holds_ite (holds_pure _) ?_
  refine holds_bind (holds_takeIf _) fun taken => ?_
  cases taken <;> exact holds_pure _

theorem holds_plainSpace : forward.Holds plainSpace := by
  refine holds_bind (holds_takeWhile _) fun spaces => ?_
  refine holds_bind holds_lineBreak fun ended => ?_
  cases ended with
  | none => exact holds_pure _
  | some first =>
    refine holds_bind holds_plainBreaks fun breaks => ?_
    obtain ⟨others,atMark⟩ := breaks
    cases atMark <;> exact holds_pure _

theorem holds_plainPieces (inFlow : Bool) (indent bound : Nat) (before : PlainSpace) :
    forward.Holds (plainPieces inFlow indent bound before) := by
  induction bound generalizing before with
  | zero => exact holds_refuse
  | succ bound ih =>
    refine holds_bind holds_ahead fun cs => holds_ite (holds_pure _) ?_
    refine holds_bind (holds_skip _) fun _ => holds_bind holds_plainSpace fun space => ?_
    refine holds_bind holds_get fun c => holds_ite (holds_pure _) ?_
    exact holds_bind (ih space) fun _ => holds_pure _

theorem holds_plain (inFlow : Bool) (indent : Nat) : forward.Holds (plain inFlow indent) :=
  holds_bind holds_ahead fun _ => holds_bind (holds_plainPieces _ _ _ _) fun _ =>
    holds_pure _

theorem holds_chompingSign : forward.Holds chompingSign :=
  holds_bind (holds_takeIf _) fun _ => holds_pure _

theorem holds_indentationSign : forward.Holds indentationSign := by
  refine holds_bind (holds_takeIf _) fun taken => ?_
  split
  · exact holds_pure _
  · exact holds_bind (holds_require _) fun _ => holds_pure _

theorem holds_blockHeader : forward.Holds blockHeader := by
  refine holds_bind holds_chompingSign fun before => ?_
  refine holds_bind holds_indentationSign fun indentation => ?_
  have hend : ∀ after : Option Chomping, forward.Holds (do
      require (endsField (← ahead))
      restOfLine
      return (⟨(before.or after).getD .clip,indentation⟩ : BlockHeader)) := fun after =>
    holds_check _ (holds_bind holds_restOfLine fun _ => holds_pure _)
  exact holds_ite (holds_bind holds_chompingSign hend) (hend none)

theorem holds_indentTo (column : Nat) : forward.Holds (indentTo column) :=
  holds_bind holds_get fun _ => holds_bind holds_ahead fun _ => holds_skip _

theorem holds_blockBreaks (indent : Nat) : forward.Holds (blockBreaks indent) :=
  holds_pieces <| holds_bind (holds_indentTo indent) fun _ =>
    holds_bind holds_lineBreak fun _ => holds_pure _

theorem holds_leadingBreaks : forward.Holds leadingBreaks := by
  refine holds_untilDone (fun (breaks,deepest) => ?_) _
  refine holds_bind (holds_takeIf _) fun taken => ?_
  cases taken with
  | none => exact holds_pure _
  | some c =>
    exact holds_ite (holds_bind holds_get fun _ => holds_pure _) (holds_pure _)

theorem holds_blockLines (folded : Bool) (indent : Nat) (chomping : Chomping) (bound : Nat)
    (before : LineEnd) : forward.Holds (blockLines folded indent chomping bound before) := by
  induction bound generalizing before with
  | zero => exact holds_refuse
  | succ bound ih =>
    refine holds_bind holds_get fun c => holds_ite (holds_pure _) ?_
    refine holds_bind (holds_takeWhile _) fun line => ?_
    refine holds_bind holds_lineBreak fun ended => ?_
    refine holds_bind (holds_blockBreaks indent) fun breaks => ?_
    refine holds_bind holds_get fun after => holds_ite ?_ (holds_pure _)
    exact holds_bind (ih _) fun _ => holds_pure _

theorem holds_block (folded : Bool) (least : Nat) : forward.Holds (block folded least) := by
  refine holds_bind (holds_skip 1) fun _ => holds_bind holds_blockHeader fun header => ?_
  have hlines : ∀ start : Nat × List Char, forward.Holds (do
      let bound := (← ahead).length + 1
      return String.ofList
        (← blockLines folded start.1 header.chomping bound ⟨none,start.2⟩)) := fun start =>
    holds_bind holds_ahead fun _ => holds_bind (holds_blockLines _ _ _ _ _) fun _ =>
      holds_pure _
  split
  · exact holds_bind (holds_blockBreaks _) fun breaks => hlines (_,breaks)
  · exact holds_bind holds_leadingBreaks fun (breaks,deepest) => hlines (_,breaks)

theorem holds_name : forward.Holds name :=
  holds_bind (holds_takeWhile _) fun _ => holds_bind (holds_require _) fun _ =>
    holds_pure _

theorem holds_encodedByte : forward.Holds encodedByte := by
  refine holds_bind (holds_expect _) fun _ => holds_bind holds_ahead fun cs => ?_
  split
  · split
    · exact holds_bind (holds_skip 2) fun _ => holds_pure _
    · exact holds_refuse
  · exact holds_refuse

theorem holds_encodedChars : forward.Holds encodedChars := by
  have hpiece : forward.Holds (do
      if (← ahead).head? = some '%' then return some [← encodedByte] else return none) :=
    holds_bind holds_ahead fun _ => holds_ite
      (holds_bind holds_encodedByte fun _ => holds_pure _) (holds_pure _)
  refine holds_bind (holds_pieces hpiece) fun bytes => ?_
  split
  · exact holds_pure _
  · exact holds_refuse

theorem holds_tagSuffix : forward.Holds tagSuffix := by
  refine holds_bind (holds_pieces (holds_bind holds_ahead fun cs => ?_)) fun _ =>
    holds_bind (holds_require _) fun _ => holds_pure _
  split
  · exact holds_bind holds_encodedChars fun _ => holds_pure _
  · exact holds_ite (holds_bind (holds_takeWhile _) fun _ => holds_pure _) (holds_pure _)
  · exact holds_pure _

theorem holds_tagHandle : forward.Holds tagHandle := by
  refine holds_bind (holds_expect _) fun _ => holds_bind holds_ahead fun cs => ?_
  refine holds_ite (holds_pure _) ?_
  exact holds_bind (holds_takeWhile _) fun _ => holds_bind (holds_expect _) fun _ =>
    holds_pure _

theorem holds_tag : forward.Holds tag := by
  refine holds_bind holds_ahead fun cs => ?_
  have hend : ∀ token : Token, forward.Holds (do
      require (endsField (← ahead))
      return token) := fun token =>
    holds_check _ (holds_pure _)
  split
  · exact holds_bind (holds_skip 2) fun _ => holds_bind holds_tagSuffix fun _ =>
      holds_bind (holds_expect _) fun _ => hend _
  · split
    · exact holds_bind (holds_skip 1) fun _ => hend _
    · split
      · exact holds_bind holds_tagHandle fun _ => holds_bind holds_tagSuffix fun _ => hend _
      · exact holds_bind (holds_skip 1) fun _ => holds_bind holds_tagSuffix fun _ => hend _

theorem holds_anchorName : forward.Holds anchorName :=
  holds_bind (holds_skip 1) fun _ => holds_bind holds_name fun _ =>
    holds_check _ (holds_pure _)

theorem holds_number : forward.Holds number := by
  refine holds_bind (holds_takeWhile _) fun digits => ?_
  split
  · exact holds_pure _
  · exact holds_refuse

theorem holds_versionNumber : forward.Holds versionNumber :=
  holds_check _ holds_number

theorem holds_version : forward.Holds version :=
  holds_bind (holds_takeWhile _) fun _ => holds_bind holds_versionNumber fun _ =>
    holds_bind (holds_expect _) fun _ => holds_bind holds_versionNumber fun _ =>
      holds_check _ (holds_pure _)

theorem holds_handleMeaning : forward.Holds handleMeaning :=
  holds_bind (holds_takeWhile _) fun _ => holds_bind holds_tagHandle fun _ =>
    holds_check _ <| holds_bind (holds_takeWhile _) fun _ => holds_bind holds_tagSuffix fun _ =>
      holds_check _ (holds_pure _)

theorem holds_directive : forward.Holds directive := by
  refine holds_bind (holds_skip 1) fun _ => holds_bind holds_name fun kind => holds_check _ ?_
  have hend : ∀ d : Directive, forward.Holds (do restOfLine; return d) := fun d =>
    holds_bind holds_restOfLine fun _ => holds_pure d
  split
  · exact holds_bind holds_version hend
  · split
    · exact holds_bind holds_handleMeaning hend
    · exact holds_bind (holds_takeWhile _) fun _ => hend _

end Scan

namespace Layout

theorem onlyMalformed_dropKey (l : Layout) : OnlyMalformed l.dropKey := by
  unfold dropKey
  split
  · exact onlyMalformed_error
  · exact onlyMalformed_ok _

theorem onlyMalformed_dropStale (c : Cursor) (l : Layout) : OnlyMalformed (l.dropStale c) := by
  unfold dropStale
  split
  · exact onlyMalformed_error
  · exact onlyMalformed_ok _

theorem onlyMalformed_markKey (c : Cursor) (l : Layout) : OnlyMalformed (l.markKey c) := by
  unfold markKey
  split
  · exact onlyMalformed_bind (onlyMalformed_dropKey l) fun _ => onlyMalformed_ok _
  · exact onlyMalformed_ok _

theorem onlyMalformed_leaveBlocks (l : Layout) : OnlyMalformed l.leaveBlocks :=
  onlyMalformed_bind (onlyMalformed_dropKey _) fun _ => onlyMalformed_ok _

theorem onlyMalformed_openFlow (c : Cursor) (token : Token) (l : Layout) :
    OnlyMalformed (l.openFlow c token) :=
  onlyMalformed_bind (onlyMalformed_markKey c l) fun _ => onlyMalformed_ok _

theorem onlyMalformed_closeFlow (token : Token) (l : Layout) : OnlyMalformed (l.closeFlow token) := by
  unfold closeFlow
  split
  · exact onlyMalformed_bind (onlyMalformed_dropKey l) fun _ => onlyMalformed_ok _
  · exact onlyMalformed_error

theorem onlyMalformed_openAt (c : Cursor) (token : Token) (l : Layout) :
    OnlyMalformed (l.openAt c token) := by
  unfold openAt
  split
  · exact onlyMalformed_ok _
  · split
    · exact onlyMalformed_ok _
    · exact onlyMalformed_error

/-- A sign that allows a key or forbids one, behind what it opens. -/
theorem onlyMalformed_dropped (allowed : Bool) (token : Token) (l : Layout) :
    OnlyMalformed (do return (← (l.allowKey allowed).dropKey).push token) :=
  onlyMalformed_bind (onlyMalformed_dropKey _) fun _ => onlyMalformed_ok _

theorem onlyMalformed_value (c : Cursor) (l : Layout) : OnlyMalformed (l.value c) := by
  unfold value
  split
  · exact onlyMalformed_ok _
  · exact onlyMalformed_bind (onlyMalformed_openAt _ _ _) fun l => onlyMalformed_dropped _ _ l

end Layout

namespace Scan

open Course

theorem holds_skipBlank : forward.Holds skipBlank := by
  refine holds_untilDone (fun ended => ?_) _
  refine holds_bind (holds_takeWhile _) fun _ => holds_bind holds_ahead fun _ => ?_
  refine holds_ite (holds_bind (holds_takeWhile _) fun _ => ?_) ?_
  all_goals
    refine holds_bind holds_lineBreak fun ended => ?_
    cases ended <;> exact holds_pure _

theorem holds_sign {change : Except Fault Layout} (h : OnlyMalformed change) :
    forward.Holds (sign change) :=
  holds_bind (holds_skip 1) fun _ => holds_lift h

theorem holds_mark (token : Token) (l : Layout) : forward.Holds (mark token l) :=
  holds_bind (holds_lift l.onlyMalformed_leaveBlocks) fun _ =>
    holds_bind (holds_skip 3) fun _ => holds_pure _

theorem holds_node (l : Layout) {read : Scan Token} (h : forward.Holds read) :
    forward.Holds (node l read) :=
  holds_bind holds_get fun c => holds_bind (holds_lift (l.onlyMalformed_markKey c))
    fun _ => holds_bind h fun _ => holds_pure _

theorem holds_plainNode (l : Layout) : forward.Holds (plainNode l) :=
  holds_bind holds_get fun c => holds_bind (holds_lift (l.onlyMalformed_markKey c))
    fun _ => holds_bind (holds_plain _ _) fun _ => holds_pure _

theorem holds_blockNode (folded : Bool) (l : Layout) : forward.Holds (blockNode folded l) :=
  holds_bind (holds_lift (Layout.onlyMalformed_dropKey _)) fun _ =>
    holds_bind (holds_block _ _) fun _ => holds_pure _

theorem holds_directiveLine (l : Layout) : forward.Holds (directiveLine l) :=
  holds_bind (holds_lift l.onlyMalformed_leaveBlocks) fun _ =>
    holds_bind holds_directive fun _ => holds_pure _

theorem holds_token (c : Char) (rest : List Char) (l : Layout) : forward.Holds (token c rest l) := by
  refine holds_bind holds_get fun here => ?_
  have hnode : ∀ {α : Type} (make : α → Token) (read : Scan α), forward.Holds read →
      forward.Holds (node l (do return make (← read))) := fun make _ h =>
    holds_node l (holds_bind h fun _ => holds_pure _)
  have hsign : ∀ {change : Except Fault Layout}, OnlyMalformed change →
      forward.Holds (sign change) := holds_sign
  refine holds_ite (holds_directiveLine l) <| holds_ite (holds_mark _ l) <|
    holds_ite (holds_mark _ l) ?_
  refine holds_ite (hsign (l.onlyMalformed_openFlow _ _)) <|
    holds_ite (hsign (l.onlyMalformed_openFlow _ _)) <|
    holds_ite (hsign (l.onlyMalformed_closeFlow _)) <|
    holds_ite (hsign (l.onlyMalformed_closeFlow _)) <|
    holds_ite (hsign (Layout.onlyMalformed_dropped _ _ l)) ?_
  refine holds_ite (hsign (onlyMalformed_bind (l.onlyMalformed_openAt _ _) fun l =>
      Layout.onlyMalformed_dropped _ _ l)) <|
    holds_ite (hsign (onlyMalformed_bind (l.onlyMalformed_openAt _ _) fun l =>
      Layout.onlyMalformed_dropped _ _ l)) <|
    holds_ite (hsign (l.onlyMalformed_value _)) ?_
  refine holds_ite (hnode .alias _ holds_anchorName) <|
    holds_ite (hnode .anchor _ holds_anchorName) <| holds_ite (holds_node l holds_tag) ?_
  refine holds_ite (holds_blockNode _ l) <| holds_ite (holds_blockNode _ l) ?_
  refine holds_ite (hnode (Token.scalar · false) _ (holds_quoted c)) ?_
  exact holds_ite (holds_plainNode l) holds_refuse

theorem holds_step (l : Layout) : forward.Holds (step l) := by
  refine holds_bind holds_skipBlank fun ended => holds_bind holds_get fun c => ?_
  refine holds_bind (holds_lift (Layout.onlyMalformed_dropStale _ _)) fun l => ?_
  split
  · exact holds_bind (holds_lift (Layout.onlyMalformed_dropKey _)) fun _ => holds_pure _
  · exact holds_bind (holds_token _ _ _) fun _ => holds_pure _

end Scan

theorem fault_of_collect {bound : Nat} {l : Layout} {c : Cursor} {fault : Fault}
    (h : (Tokens.collect bound l c).fault = some fault) :
    fault = .malformed ∨ EscapesNoCharacter c.rest fault := by
  -- each step starts where the one before has ended, in a suffix of the text
  induction bound generalizing l c with
  | zero => exact .inl (Option.some.inj h).symm
  | succ bound ih =>
    rw [Tokens.collect] at h
    have hstep := Scan.holds_step l c
    split at h
    · rename_i f hf
      obtain rfl := Option.some.inj h
      exact hstep.wrong f hf
    · rename_i next c' hnext
      exact (ih h).imp_right fun he => he.of_suffix (hstep.leads _ _ hnext)
    · cases h

theorem withoutMark_suffix (cs : List Char) : Text.withoutMark cs <:+ cs := by
  unfold Text.withoutMark
  split
  · exact List.suffix_cons _ _
  · exact List.suffix_refl _

/-- What stops the tokens of a text: its form, or an escape for a number that no character has. -/
theorem fault_of_tokens {cs : List Char} {fault : Fault} (h : (Tokens.ofText cs).fault = some fault) :
    fault = .malformed ∨ EscapesNoCharacter cs fault :=
  (fault_of_collect h).imp_right fun he => he.of_suffix (withoutMark_suffix cs)

end TypedResources.Yaml

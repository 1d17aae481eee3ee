/-!
Readers take a value from the front of a text and leave the rest, which is always an end of the
text. So the rest is never longer than the text, and every loop over a reader ends.
-/

namespace TypedResources.Markup

/-- A value taken from the front of `input`, and what is left. -/
structure Taken (α : Type) (input : List Char) where
  value : α
  rest : List Char
  rest_suffix : rest <:+ input

theorem Taken.rest_le {α : Type} {input : List Char} (t : Taken α input) :
    t.rest.length ≤ input.length := t.rest_suffix.length_le

/-- A reader succeeds with a value and a rest, or refuses the text. -/
def Reader (α : Type) := (input : List Char) → Option (Taken α input)

namespace Reader

instance : Monad Reader where
  pure a := fun input => some ⟨a, input, List.suffix_refl _⟩
  bind read next := fun input =>
    match read input with
    | none => none
    | some t =>
      match next t.value t.rest with
      | none => none
      | some u => some ⟨u.value, u.rest, u.rest_suffix.trans t.rest_suffix⟩

def fail {α : Type} : Reader α := fun _ => none

def require (condition : Bool) : Reader Unit := if condition then pure () else fail

def ofOption {α : Type} : Option α → Reader α
  | some a => pure a
  | none => fail

def peek : Reader (Option Char) := fun input => some ⟨input.head?, input, List.suffix_refl _⟩

def lookahead : Reader (List Char) := fun input => some ⟨input, input, List.suffix_refl _⟩

def takeWhile (p : Char → Bool) : Reader (List Char) := fun input =>
  some ⟨input.takeWhile p, input.dropWhile p, List.dropWhile_suffix p⟩

/-- The rest of a text after the given word, if it begins with the word. -/
def afterWord : List Char → (input : List Char) → Option (Taken Unit input)
  | [], input => some ⟨(), input, List.suffix_refl _⟩
  | _ :: _, [] => none
  | w :: word, c :: input =>
    if w = c then
      (afterWord word input).map fun t => ⟨(), t.rest, t.rest_suffix.trans (List.suffix_cons _ _)⟩
    else none

def word (w : String) : Reader Unit := afterWord w.toList

def startsWith (w : String) : Reader Bool := do return w.toList.isPrefixOf (← lookahead)

def optionalWord (w : String) : Reader Bool := do
  if ← startsWith w then
    word w
    return true
  else
    return false

def untilMark (mark : List Char) : (input : List Char) → Option (Taken (List Char) input)
  | [] => (afterWord mark []).map fun t => ⟨[], t.rest, t.rest_suffix⟩
  | c :: input =>
    match afterWord mark (c :: input) with
    | some t => some ⟨[], t.rest, t.rest_suffix⟩
    | none =>
      (untilMark mark input).map fun t =>
        ⟨c :: t.value, t.rest, t.rest_suffix.trans (List.suffix_cons _ _)⟩

def upTo (mark : String) : Reader (List Char) := untilMark mark.toList

/-- Take items as long as the next character may begin one. The item's reader gets that character,
which is already taken. -/
def many {α : Type} (begins : Char → Bool) (item : Char → Reader α) : Reader (List α)
  | [] => some ⟨[], [], List.suffix_refl _⟩
  | c :: input =>
    if begins c then
      match item c input with
      | none => none
      | some t =>
        match many begins item t.rest with
        | none => none
        | some u =>
          some ⟨t.value :: u.value, u.rest,
            (u.rest_suffix.trans t.rest_suffix).trans (List.suffix_cons _ _)⟩
    else some ⟨[], c :: input, List.suffix_refl _⟩
termination_by input => input.length
decreasing_by exact Nat.lt_succ_of_le t.rest_le

def readAll {α : Type} (reader : Reader α) (input : List Char) : Option α :=
  match reader input with
  | some ⟨value, [], _⟩ => some value
  | _ => none

def isBlank (c : Char) : Bool := c = ' ' || c = '\t' || c = '\n' || c = '\r'

def blanks : Reader Bool := do return !(← takeWhile isBlank).isEmpty

def someBlanks : Reader Unit := do require (← blanks)

def quoted : Reader (List Char) := do
  if ← optionalWord "\"" then
    upTo "\""
  else
    word "'"
    upTo "'"

end Reader

end TypedResources.Markup

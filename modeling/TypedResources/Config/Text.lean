import TypedResources.Calendar.Moment
import TypedResources.Config.Value
import TypedResources.Number.Decimal
import TypedResources.Text.Lines
import TypedResources.Unicode.Printable

/-!
Values as text. A value that stands alone shows its text; inside a collection texts are quoted and
moments are spelled out.
-/

namespace TypedResources.Config

open Number

/-- A character inside quotes; characters that would not show are written by their numbers. -/
def quotedChar (quote c : Char) : List Char :=
  if c = '\\' ∨ c = quote then ['\\', c]
  else if c = '\n' then "\\n".toList
  else if c = '\r' then "\\r".toList
  else if c = '\t' then "\\t".toList
  else if Unicode.isPrintable c then [c]
  else if c.toNat < 0x100 then "\\x".toList ++ paddedHex 2 c.toNat
  else if c.toNat < 0x10000 then "\\u".toList ++ paddedHex 4 c.toNat
  else "\\U".toList ++ paddedHex 8 c.toNat

/-- Single quotes, unless the text holds one and no double quote. -/
def quoteFor (cs : List Char) : Char :=
  if cs.contains '\'' && !cs.contains '"' then '"' else '\''

def quotedText (cs : List Char) : List Char :=
  quoteFor cs :: cs.flatMap (quotedChar (quoteFor cs)) ++ [quoteFor cs]

def quotedByte (quote : Char) (b : UInt8) : List Char :=
  if 0x7f ≤ b.toNat then "\\x".toList ++ paddedHex 2 b.toNat
  else quotedChar quote (Char.ofNat b.toNat)

def quotedBytes (bytes : List UInt8) : List Char :=
  let quote := quoteFor (bytes.map fun b => Char.ofNat b.toNat)
  'b' :: quote :: bytes.flatMap (quotedByte quote) ++ [quote]

def joined (items : List (List Char)) : List Char := List.intercalate ", ".toList items

def intText (n : Int) : List Char := (if n < 0 then ['-'] else []) ++ decimal n.natAbs

def dateParts (d : Calendar.Date) : List (List Char) := [d.year, d.month, d.day].map decimal

/-- The parts of a moment's time; zeros at its end are left out, down to the minute. -/
def timeParts (m : Calendar.Moment) : List (List Char) :=
  ([m.hour, m.minute] ++
    (if m.microsecond = 0 then (if m.second = 0 then [] else [m.second])
      else [m.second, m.microsecond])).map decimal

/-- The span of an offset: whole days, rounded down, and seconds. -/
def spanText (minutes : Int) : List Char :=
  "datetime.timedelta(".toList ++
    joined ((if minutes < 0 then ["days=-1".toList] else []) ++
      ["seconds=".toList ++ intText ((minutes % 1440) * 60)]) ++ [')']

def zoneText (minutes : Int) : List Char :=
  if minutes = 0 then "datetime.timezone.utc".toList
  else "datetime.timezone(".toList ++ spanText minutes ++ [')']

def Scalar.quoted : Scalar → List Char
  | null => "None".toList
  | bool b => if b then "True".toList else "False".toList
  | int n => intText n
  | float x => x.text
  | text s => quotedText s.toList
  | bytes b => quotedBytes b
  | date d => "datetime.date(".toList ++ joined (dateParts d) ++ [')']
  | moment m =>
    "datetime.datetime(".toList ++
      joined (dateParts m.date ++ timeParts m ++
        (m.offset.map fun o => "tzinfo=".toList ++ zoneText o).toList) ++ [')']

/-- Whether a scalar has a text; a whole number of too many digits has none. -/
def Scalar.isWritable : Scalar → Bool
  | int n => n.natAbs < Nat.pow 10 maxDecimalDigits
  | _ => true

def Scalar.shown : Scalar → String
  | text s => s
  | date d => String.ofList d.text
  | moment m => String.ofList m.text
  | s => String.ofList s.quoted

namespace Value

mutual

/-- A value inside a collection. -/
def quoted : Value → List Char
  | scalar s => s.quoted
  | list items => '[' :: joined (quotedItems items) ++ [']']
  | pair first second => '(' :: joined [first.quoted, second.quoted] ++ [')']
  | members items =>
    if items.isEmpty then "set()".toList
    else '\x7b' :: joined (items.map Scalar.quoted) ++ ['\x7d']
  | map entries => '\x7b' :: joined (quotedEntries entries) ++ ['\x7d']

def quotedItems : List Value → List (List Char)
  | [] => []
  | item :: rest => item.quoted :: quotedItems rest

def quotedEntries : List (Scalar × Value) → List (List Char)
  | [] => []
  | (key, value) :: rest =>
    (key.quoted ++ ": ".toList ++ value.quoted) :: quotedEntries rest

end

mutual

def isWritable : Value → Bool
  | scalar s => s.isWritable
  | list items => areWritable items
  | pair first second => first.isWritable && second.isWritable
  | members items => items.all (·.isWritable)
  | map entries => entriesWritable entries

def areWritable : List Value → Bool
  | [] => true
  | item :: rest => item.isWritable && areWritable rest

def entriesWritable : List (Scalar × Value) → Bool
  | [] => true
  | (key, value) :: rest => key.isWritable && value.isWritable && entriesWritable rest

end

def shown : Value → String
  | scalar s => s.shown
  | value => String.ofList value.quoted

/-- A value as an option's text; true and false in lower case. -/
def optionText : Value → String
  | scalar (.bool b) => if b then "true" else "false"
  | value => value.shown

end Value

end TypedResources.Config

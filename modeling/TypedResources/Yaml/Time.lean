import TypedResources.Calendar.Moment
import TypedResources.Number.Digits

/-!
Times as scalars write them: a date, perhaps with a time of day, a fraction of a second, and the
distance of the clock from universal time.
-/

namespace TypedResources.Yaml

open Number

/-- A zone: universal time, or some hours and minutes ahead of it or behind it. -/
inductive ZoneText
  | universal
  | ahead (hours minutes : Nat)
  | behind (hours minutes : Nat)
  deriving DecidableEq, Repr

structure ClockText where
  hour : Nat
  minute : Nat
  second : Nat
  fraction : List Char
  zone : Option ZoneText
  deriving DecidableEq, Repr

structure TimeText where
  year : Nat
  month : Nat
  day : Nat
  /-- Month and day have two digits each. -/
  isFull : Bool
  clock : Option ClockText
  deriving DecidableEq, Repr

namespace TimeText

def twoDigits? : List Char → Option (Nat × List Char)
  | a :: b :: rest => (ofDigits? 10 [a, b]).map (·, rest)
  | _ => none

def digits? : List Char → Option (Nat × Bool × List Char)
  | a :: b :: rest =>
    if isDecimalDigit b then (ofDigits? 10 [a, b]).map (·, true, rest)
    else (ofDigits? 10 [a]).map (·, false, b :: rest)
  | [a] => (ofDigits? 10 [a]).map (·, false, [])
  | [] => none

def after? (c : Char) : List Char → Option (List Char)
  | x :: rest => if x = c then some rest else none
  | [] => none

def isSpace (c : Char) : Bool := c = ' ' || c = '\t'

def afterDate? : List Char → Option (List Char)
  | 'T' :: rest | 't' :: rest => some rest
  | c :: rest => if isSpace c then some (rest.dropWhile isSpace) else none
  | [] => none

def signedZone? (make : Nat → Nat → ZoneText) (cs : List Char) : Option ZoneText := do
  let (hours, _, rest) ← digits? cs
  match rest with
  | [] => some (make hours 0)
  | _ =>
    let (minutes, rest) ← twoDigits? (← after? ':' rest)
    if rest.isEmpty then some (make hours minutes) else none

/-- A zone that is the whole text. -/
def zone? (cs : List Char) : Option ZoneText :=
  match cs.dropWhile isSpace with
  | ['Z'] => some .universal
  | '+' :: rest => signedZone? .ahead rest
  | '-' :: rest => signedZone? .behind rest
  | _ => none

def fraction : List Char → List Char × List Char
  | '.' :: rest => (rest.takeWhile isDecimalDigit, rest.dropWhile isDecimalDigit)
  | cs => ([], cs)

def clock? (cs : List Char) : Option ClockText := do
  let (hour, _, rest) ← digits? cs
  let (minute, rest) ← twoDigits? (← after? ':' rest)
  let (second, rest) ← twoDigits? (← after? ':' rest)
  let (part, rest) := fraction rest
  match rest with
  | [] => some ⟨hour, minute, second, part, none⟩
  | _ => (zone? rest).map fun zone => ⟨hour, minute, second, part, some zone⟩

def of? (cs : List Char) : Option TimeText := do
  let (century, rest) ← twoDigits? cs
  let (years, rest) ← twoDigits? rest
  let (month, monthFull, rest) ← digits? (← after? '-' rest)
  let (day, dayFull, rest) ← digits? (← after? '-' rest)
  let isFull := monthFull && dayFull
  match rest with
  | [] => some ⟨100 * century + years, month, day, isFull, none⟩
  | _ =>
    (clock? (← afterDate? rest)).map fun clock =>
      ⟨100 * century + years, month, day, isFull, some clock⟩

/-- Plain scalars that are times: a date alone has two digits for month and day. -/
def isImplicit (t : TimeText) : Bool := t.isFull || t.clock.isSome

def microseconds (part : List Char) : Nat :=
  (ofDigits? 10 ((part ++ List.replicate 6 '0').take 6)).getD 0

/-- Minutes ahead of universal time. -/
def offset : ZoneText → Int
  | .universal => 0
  | .ahead hours minutes => hours * 60 + minutes
  | .behind hours minutes => -(hours * 60 + minutes)

def moment? (date : Calendar.Date) (clock : ClockText) : Option Calendar.Moment :=
  Calendar.Moment.of? date clock.hour clock.minute clock.second (microseconds clock.fraction)
    (clock.zone.map offset)

end TimeText

end TypedResources.Yaml

import TypedResources.Calendar.Date

/-!
Moments: a date with a time of day, which may say how far its clock is ahead of universal time.
-/

namespace TypedResources.Calendar

/-- A clock shows less than a day ahead of universal time, and less than a day behind it. -/
def isOffset (minutes : Int) : Bool := minutes.natAbs < 24 * 60

def isTimeOfDay (hour minute second microsecond : Nat) : Bool :=
  hour < 24 && minute < 60 && second < 60 && microsecond < 1000000

structure Moment where
  date : Date
  hour : Nat
  minute : Nat
  second : Nat
  microsecond : Nat
  /-- Minutes ahead of universal time, if known. -/
  offset : Option Int
  exists_time : isTimeOfDay hour minute second microsecond = true
  exists_offset : offset.all isOffset = true
  deriving DecidableEq, Repr

namespace Moment

def of? (date : Date) (hour minute second microsecond : Nat) (offset : Option Int) :
    Option Moment :=
  if h : isTimeOfDay hour minute second microsecond then
    if h' : offset.all isOffset then some ⟨date, hour, minute, second, microsecond, offset, h, h'⟩
    else none
  else none

/-- Microseconds since the calendar began, by the clock of the moment. -/
def clock (m : Moment) : Nat :=
  (((m.date.ordinal * 24 + m.hour) * 60 + m.minute) * 60 + m.second) * 1000000 + m.microsecond

/-- Moments are the same when both clocks are unplaced and show the same, or both are placed and
mean the same instant. -/
def same (a b : Moment) : Bool :=
  match a.offset, b.offset with
  | none, none => a.clock = b.clock
  | some x, some y => (a.clock - x * 60000000 : Int) = b.clock - y * 60000000
  | _, _ => false

def offsetText (minutes : Int) : List Char :=
  (if minutes < 0 then '-' else '+') :: Number.padded 2 (minutes.natAbs / 60) ++
    ':' :: Number.padded 2 (minutes.natAbs % 60)

/-- Date and time of day; microseconds and offset are left out where there are none. -/
def text (m : Moment) : List Char :=
  m.date.text ++ ' ' :: Number.padded 2 m.hour ++ ':' :: Number.padded 2 m.minute ++
    ':' :: Number.padded 2 m.second ++
    (if m.microsecond = 0 then [] else '.' :: Number.padded 6 m.microsecond) ++
    (m.offset.map offsetText).getD []

theorem same_self (m : Moment) : m.same m = true := by
  unfold same
  cases m.offset <;> simp

end Moment

end TypedResources.Calendar

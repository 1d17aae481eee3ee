import TypedResources.Number.Digits

/-!
Dates of the Gregorian calendar, from year 1 to year 9999.
-/

namespace TypedResources.Calendar

def isLeapYear (year : Nat) : Bool := (year % 4 = 0 && year % 100 ≠ 0) || year % 400 = 0

def daysInMonth (year month : Nat) : Nat :=
  if month = 2 then (if isLeapYear year then 29 else 28)
  else if month = 4 ∨ month = 6 ∨ month = 9 ∨ month = 11 then 30
  else 31

def hasDay (year month day : Nat) : Bool :=
  1 ≤ year && year ≤ 9999 && 1 ≤ month && month ≤ 12 && 1 ≤ day && day ≤ daysInMonth year month

structure Date where
  year : Nat
  month : Nat
  day : Nat
  exists_day : hasDay year month day = true
  deriving DecidableEq, Repr

namespace Date

def of? (year month day : Nat) : Option Date :=
  if h : hasDay year month day then some ⟨year, month, day, h⟩ else none

def daysBeforeYear (year : Nat) : Nat :=
  365 * (year - 1) + (year - 1) / 4 - (year - 1) / 100 + (year - 1) / 400

def daysBeforeMonth (year month : Nat) : Nat :=
  (List.range (month - 1)).foldl (fun days m => days + daysInMonth year (m + 1)) 0

/-- The place of a date in the calendar; the first one has number one. -/
def ordinal (d : Date) : Nat := daysBeforeYear d.year + daysBeforeMonth d.year d.month + d.day

def text (d : Date) : List Char :=
  Number.padded 4 d.year ++ '-' :: Number.padded 2 d.month ++ '-' :: Number.padded 2 d.day

end Date

end TypedResources.Calendar

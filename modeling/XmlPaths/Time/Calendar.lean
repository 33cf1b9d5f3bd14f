/-!
# Dates

* `Date`, `Date.isValid`   days of the Gregorian calendar, which is taken to be always in force;
* `Date.ofDayOfYear`       the date of a day that is counted from the first one of a year;
* `Date.ofWeek?`           the date of a day of a numbered week.

The first week of a year is the one with its first Thursday.
-/

namespace XmlPaths

structure Date where
  year : Nat
  month : Nat
  day : Nat
deriving DecidableEq

def isLeap (y : Nat) : Bool := y % 4 == 0 && (y % 100 != 0 || y % 400 == 0)

def yearLength (y : Nat) : Nat := if isLeap y then 366 else 365

def monthLengths (y : Nat) : List Nat :=
  [31, if isLeap y then 29 else 28, 31, 30, 31, 30, 31, 31, 30, 31, 30, 31]

def lastYear : Nat := 9999

def daysBefore (y : Nat) : Nat := 365 * (y - 1) + (y - 1) / 4 - (y - 1) / 100 + (y - 1) / 400

/-- the weekday on which a year begins, from Monday, which is 0 -/
def firstWeekday (y : Nat) : Nat := daysBefore y % 7

def isLongYear (y : Nat) : Bool := firstWeekday y == 3 || (firstWeekday y == 2 && isLeap y)

namespace Date

def isValid (d : Date) : Bool :=
  1 ≤ d.year && d.year ≤ lastYear && 1 ≤ d.month && 1 ≤ d.day &&
    match (monthLengths d.year)[d.month - 1]? with
    | some l => d.day ≤ l
    | none => false

/-- the month and the day of month `n` days after the first day of the month `month` -/
def inMonths (month n : Nat) : List Nat → Nat × Nat
  | [] => (month, n + 1)
  | l :: ls => if n < l then (month, n + 1) else inMonths (month + 1) (n - l) ls

/-- the date of the day `n` days after the first one of a year -/
def ofDayOfYear (y n : Nat) : Date :=
  let (m, d) := inMonths 1 n (monthLengths y)
  ⟨y, m, d⟩

/-- the date `n` days after the first day of a year or before it, at most a year away -/
def around (y : Nat) (n : Int) : Date :=
  if n < 0 then ofDayOfYear (y - 1) (yearLength (y - 1) + n).toNat
  else if n < yearLength y then ofDayOfYear y n.toNat
  else ofDayOfYear (y + 1) (n - yearLength y).toNat

/-- the date of a day of a week; weeks and days are counted from 1 -/
def ofWeek? (year week day : Nat) : Option Date :=
  if 1 ≤ year && 1 ≤ week && (week ≤ 52 || (week == 53 && isLongYear year)) && 1 ≤ day && day ≤ 7
  then
    let first : Int := firstWeekday year
    let monday : Int := if first ≤ 3 then -first else 7 - first
    let d := around year (monday + 7 * (week - 1 : Nat) + (day - 1 : Nat))
    if d.isValid then some d else none
  else none

end Date

theorem length_monthLengths (y : Nat) : (monthLengths y).length = 12 := rfl

theorem sum_monthLengths (y : Nat) : (monthLengths y).foldl (· + ·) 0 = yearLength y := by
  unfold monthLengths yearLength
  split <;> rfl

end XmlPaths

import XmlPaths.Text.Blank
import XmlPaths.Time.Timestamp

/-!
# Reading timestamps

A timestamp is a date, optionally followed by one character of any kind and a time, which may be
followed by a zone.  Dates are given by month and day or by week and weekday, with or without
hyphens; times with or without colons.

* `takeNumber?`         a number of a fixed length;
* `dateLength?`         where the date ends, which its first characters tell;
* `readDate?`, `readClock?`, `readZone?`   the parts;
* `Timestamp.parse?`    the timestamp that a text is, apart from blanks at its ends.
-/

namespace XmlPaths

def number? (cs : List Char) : Option Nat :=
  if cs.all Char.isDigit then some (cs.foldl (fun n c => 10 * n + (c.toNat - '0'.toNat)) 0) else none

def takeNumber? (n : Nat) (cs : List Char) : Option (Nat × List Char) :=
  if n ≤ cs.length then (number? (cs.take n)).map (·, cs.drop n) else none

/-! ## dates -/

/-- Where the date at the front of a text ends.  In a date with a weekday, what could be either the
weekday behind a hyphen or a time behind a hyphen is a time if two digits follow the hyphen; without
hyphens, an odd number of digits behind the week begins with the weekday. -/
def dateLength? (cs : List Char) : Option Nat :=
  if cs.length = 7 then some 7
  else
    match cs.drop 4 with
    | '-' :: 'W' :: _ =>
      match cs.drop 8 with
      | '-' :: [] => none
      | '-' :: _ :: c :: _ => some (if c.isDigit then 8 else 10)
      | '-' :: _ => some 10
      | _ => some 8
    | '-' :: _ => some 10
    | 'W' :: _ =>
      let digits := ((cs.drop 7).takeWhile Char.isDigit).length
      if digits < 2 then some (7 + digits) else some (if digits % 2 = 1 then 7 else 8)
    | _ => some 8

/-- what follows a hyphen if there has to be one -/
def skipHyphen? (hyphens : Bool) (cs : List Char) : Option (List Char) :=
  if hyphens then
    match cs with
    | '-' :: r => some r
    | _ => none
  else some cs

/-- the date at the front of a text; `length` says where it ends -/
def readDate? (cs : List Char) (length : Nat) : Option Date := do
  let (year, r) ← takeNumber? 4 cs
  let hyphens := r.head? == some '-'
  let r ← skipHyphen? hyphens r
  match r with
  | 'W' :: r =>
    let (week, r) ← takeNumber? 2 r
    if cs.length - r.length < length then
      let r ← skipHyphen? hyphens r
      let (day, _) ← takeNumber? 1 r
      Date.ofWeek? year week day
    else Date.ofWeek? year week 1
  | r =>
    let (month, r) ← takeNumber? 2 r
    let r ← skipHyphen? hyphens r
    let (day, _) ← takeNumber? 2 r
    let d : Date := ⟨year, month, day⟩
    if d.isValid then some d else none

/-! ## times -/

/-- the numbers of a time, its microseconds, and whether nothing is left behind them -/
structure ClockReading where
  numbers : List Nat
  microsecond : Nat
  complete : Bool
deriving DecidableEq

/-- The microseconds of a fraction.  Of more than six digits the first six count, and what follows
these makes the reading incomplete unless it is digits. -/
def readFraction? (cs : List Char) : Option ClockReading :=
  let counted := cs.take 6
  (number? counted).map fun n =>
    ⟨[], n * Nat.pow 10 (6 - counted.length), ((cs.drop 6).dropWhile Char.isDigit).isEmpty⟩

/-- The next `n` numbers of two digits each.  Whether there are colons between them is known behind
the first one.  A single ASCII character may be left, which makes the reading incomplete. -/
def readNumbers? : Nat → Option Bool → List Char → Option ClockReading
  | 0, _, cs => readFraction? cs
  | n + 1, colons, cs =>
    match takeNumber? 2 cs with
    | none => none
    | some (v, rest) =>
      match rest with
      | [] => some ⟨[v], 0, true⟩
      | c :: more =>
        let colons := colons.getD (c == ':')
        let found : Option ClockReading :=
          if more.isEmpty && c.toNat < 0x80 then some ⟨[], 0, false⟩
          else if colons && c == ':' then readNumbers? n (some colons) more
          else if c == '.' || c == ',' then readFraction? more
          else if colons then none
          else readNumbers? n (some colons) (c :: more)
        found.map fun r => { r with numbers := v :: r.numbers }

/-- the time of day that a text gives, and whether nothing is left behind it -/
def readClock? (cs : List Char) : Option (Clock × Bool) :=
  (readNumbers? 3 none cs).map fun r =>
    let part (i : Nat) : Nat := r.numbers.getD i 0
    (⟨part 0, part 1, part 2, r.microsecond⟩, r.complete)

def beginsZone (c : Char) : Bool := c == '+' || c == '-' || c == 'Z'

/-- How far the zone of a text is ahead.  A difference of less than a second is none. -/
def readZone? : List Char → Option Int
  | ['Z'] => some 0
  | 'Z' :: _ => none
  | sign :: cs =>
    match readClock? cs with
    | some (c, true) =>
      let n : Int := c.seconds * microsecondsPerSecond + c.microsecond
      if c.seconds = 0 then some 0 else some (if sign = '-' then -n else n)
    | _ => none
  | [] => none

/-- the time and the zone, if there is one; only in front of a zone something may be left -/
def readTime? (cs : List Char) : Option (Clock × Option Int) :=
  match readClock? (cs.takeWhile (!beginsZone ·)), cs.dropWhile (!beginsZone ·) with
  | some (c, complete), [] => if complete then some (c, none) else none
  | some (c, _), zone => (readZone? zone).map fun a => (c, some a)
  | none, _ => none

def Timestamp.parse? (text : String) : Option Timestamp := do
  let cs := trimBlanks text.toList
  let length ← dateLength? cs
  let date ← readDate? cs length
  let (clock, ahead) ← match cs.drop length with
    | [] => some (Clock.midnight, none)
    | _ :: time => readTime? time
  let t : Timestamp := ⟨date, clock, ahead⟩
  if t.isValid then some t else none

end XmlPaths

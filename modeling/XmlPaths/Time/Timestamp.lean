import XmlPaths.Time.Calendar

/-!
# Timestamps

* `Clock`, `Timestamp`   a time of day, and a date with one, which may say its zone;
* `Timestamp.isValid`    whether all parts are in their ranges;
* `Timestamp.render`     its ISO 8601 form.
-/

namespace XmlPaths

structure Clock where
  hour : Nat
  minute : Nat
  second : Nat
  microsecond : Nat
deriving DecidableEq

/-- a date, a time of day, and how many microseconds that time is ahead of universal time -/
structure Timestamp where
  date : Date
  clock : Clock
  ahead : Option Int
deriving DecidableEq

def microsecondsPerSecond : Nat := 1000000

def secondsPerDay : Nat := 86400

namespace Clock

def midnight : Clock := ⟨0, 0, 0, 0⟩

def isValid (c : Clock) : Bool :=
  c.hour < 24 && c.minute < 60 && c.second < 60 && c.microsecond < microsecondsPerSecond

def seconds (c : Clock) : Nat := 3600 * c.hour + 60 * c.minute + c.second

def ofMicroseconds (n : Nat) : Clock :=
  let s := n / microsecondsPerSecond
  ⟨s / 3600, s / 60 % 60, s % 60, n % microsecondsPerSecond⟩

end Clock

/-- whether all parts of a timestamp are in their ranges; zones differ by less than a day -/
def Timestamp.isValid (t : Timestamp) : Bool :=
  t.date.isValid && t.clock.isValid &&
    t.ahead.all fun a => a.natAbs < secondsPerDay * microsecondsPerSecond

/-- a number with at least `width` digits -/
def padded (width n : Nat) : String :=
  let digits := Nat.toDigits 10 n
  String.ofList (List.replicate (width - digits.length) '0' ++ digits)

def renderFraction (microsecond : Nat) : String :=
  if microsecond = 0 then "" else "." ++ padded 6 microsecond

def Date.render (d : Date) : String :=
  padded 4 d.year ++ "-" ++ padded 2 d.month ++ "-" ++ padded 2 d.day

def Clock.render (c : Clock) : String :=
  padded 2 c.hour ++ ":" ++ padded 2 c.minute ++ ":" ++ padded 2 c.second ++
    renderFraction c.microsecond

/-- how far a zone is ahead; seconds are only given where there are any -/
def renderZone (ahead : Int) : String :=
  let c := Clock.ofMicroseconds ahead.natAbs
  let sign := if ahead < 0 then "-" else "+"
  let short := sign ++ padded 2 c.hour ++ ":" ++ padded 2 c.minute
  if c.second = 0 ∧ c.microsecond = 0 then short
  else short ++ ":" ++ padded 2 c.second ++ renderFraction c.microsecond

def Timestamp.render (t : Timestamp) : String :=
  t.date.render ++ "T" ++ t.clock.render ++ t.ahead.elim "" renderZone

theorem seconds_lt_of_isValid {c : Clock} (h : c.isValid = true) : c.seconds < secondsPerDay := by
  simp only [Clock.isValid, Bool.and_eq_true, decide_eq_true_eq] at h
  simp only [Clock.seconds, secondsPerDay]
  omega

end XmlPaths

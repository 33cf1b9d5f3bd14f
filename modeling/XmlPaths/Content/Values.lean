import XmlPaths.Content.Attributes
import XmlPaths.Text.CaseFolding
import XmlPaths.Text.Numeral
import XmlPaths.Time.Parser

/-!
# What elements and attributes hold

* `Forest.contentOf`        the text in an element;
* `Forest.timestampOf`, `timestamps`   the timestamp that it is, and those of several elements;
* `AttributeHandle.timestamp`, `Forest.attributeTimestamp?`   the timestamp in an attribute;
* `Duration`, `Forest.attributeMinutes?`   a number of minutes in an attribute;
* `Forest.language?`, `Forest.isInLanguage?`   the language that is declared for an element.
-/

namespace XmlPaths

def timestamp (text : String) : Except Refusal Timestamp :=
  match Timestamp.parse? text with
  | some t => .ok t
  | none => .error .notATimestamp

/-- an amount of time; the seconds are less than a day -/
structure Duration where
  days : Int
  seconds : Nat
deriving DecidableEq

/-- how many days a duration has at most, in either direction -/
def longestDays : Int := 999999999

def Duration.ofMinutes? (n : Int) : Option Duration :=
  let days := Int.fdiv (60 * n) secondsPerDay
  if -longestDays ≤ days ∧ days ≤ longestDays then
    some ⟨days, (Int.fmod (60 * n) secondsPerDay).toNat⟩
  else none

namespace Forest

def contentOf (f : Forest) (x : NodeId) : Except Refusal String :=
  match f.node? x with
  | some n => if n.isElement then .ok n.content else .error .noContent
  | none => .error .noContent

def contentsOf (f : Forest) (xs : List NodeId) : Except Refusal (List String) :=
  xs.mapM f.contentOf

def timestampOf (f : Forest) (x : NodeId) : Except Refusal Timestamp :=
  match f.contentOf x with
  | .error r => .error r
  | .ok t => timestamp t

/-- the timestamps in elements, up to the first element that has none, and why it has none -/
def timestamps (f : Forest) : List NodeId → List Timestamp × Option Refusal
  | [] => ([], none)
  | x :: xs =>
    match f.timestampOf x with
    | .error r => ([], some r)
    | .ok t =>
      let (ts, r) := f.timestamps xs
      (t :: ts, r)

/-- the timestamp in an attribute, if there is such an attribute and it is one -/
def attributeTimestamp? (f : Forest) (x : NodeId) (name : String) :
    Except Refusal (Option Timestamp) :=
  (f.attributeValue? x name).map fun v => v.bind Timestamp.parse?

/-- the number of minutes in an attribute, if there is such an attribute and it is an integer -/
def attributeMinutes? (f : Forest) (x : NodeId) (name : String) :
    Except Refusal (Option Duration) :=
  (f.attributeValue? x name).map fun v => (v.bind integer?).bind Duration.ofMinutes?

def languageName : Name := ⟨some xmlSpace, "lang"⟩

/-- the language that the nearest declaration above a node or at it declares -/
def language? (f : Forest) (x : NodeId) : Option String :=
  (f.lineage x).findSome? fun n => n.element?.bind (·.attribute? languageName)

/-- whether the declared language begins with the given one, if one is declared; case is ignored -/
def isInLanguage? (f : Forest) (x : NodeId) (language : String) : Option Bool :=
  (f.language? x).map fun declared => startsWithFolded declared language

end Forest

def AttributeHandle.timestamp (f : Forest) (h : AttributeHandle) : Except Refusal Timestamp :=
  match h.value f with
  | .error r => .error r
  | .ok v => XmlPaths.timestamp v

end XmlPaths

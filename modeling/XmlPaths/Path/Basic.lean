/-!
# Location paths that describe nodes

A path is a sequence of steps to child elements, which may end with a step to an attribute.  An
element step names its element, with a prefix if there is one, and may demand attributes of it.

* `Comparison`        an attribute that has to be there, possibly with a given value;
* `ChildStep`, `Step`   a step and what it demands;
* `Segment`, `Path`   a step along with the part of the expression that it was read from;
* `Path.beginnings`   the beginnings of the expression that end with each step.
-/

namespace XmlPaths

/-- A demand on the attribute `name`: it must have the value, or just be there if none is given. -/
structure Comparison where
  name : String
  value : Option String
deriving DecidableEq

/-- a step to the child elements of a name that meet all comparisons -/
structure ChildStep where
  nsPrefix : Option String
  localName : String
  comparisons : List Comparison
deriving DecidableEq

inductive Step where
  | element (step : ChildStep)
  | attribute (name : String)
deriving DecidableEq

def Step.isAttribute : Step → Bool
  | .element _ => false
  | .attribute _ => true

/-- a step and the text it was read from; the text begins with the separator before the step -/
structure Segment where
  source : String
  step : Step
deriving DecidableEq

structure Path where
  expression : String
  segments : List Segment
deriving DecidableEq

def Path.steps (p : Path) : List Step := p.segments.map Segment.step

def Path.endsInAttribute (p : Path) : Bool :=
  match p.steps.getLast? with
  | some s => s.isAttribute
  | none => false

/-- the texts that end with each of the segments, after the text `before` -/
def beginningsFrom (before : String) : List Segment → List (String × Step)
  | [] => []
  | s :: rest => (before ++ s.source, s.step) :: beginningsFrom (before ++ s.source) rest

def Path.beginnings (p : Path) : List (String × Step) := beginningsFrom "" p.segments

theorem beginningsFrom_nil (b : String) : beginningsFrom b [] = [] := rfl

theorem beginningsFrom_cons (b : String) (s : Segment) (rest : List Segment) :
    beginningsFrom b (s :: rest) =
      (b ++ s.source, s.step) :: beginningsFrom (b ++ s.source) rest := rfl

theorem map_snd_beginningsFrom (b : String) (segs : List Segment) :
    (beginningsFrom b segs).map Prod.snd = segs.map Segment.step := by
  induction segs generalizing b with
  | nil => rfl
  | cons s rest ih => simp [beginningsFrom, ih]

theorem length_beginnings (p : Path) : p.beginnings.length = p.steps.length := by
  have h := congrArg List.length (map_snd_beginningsFrom "" p.segments)
  simpa [Path.beginnings, Path.steps] using h

end XmlPaths

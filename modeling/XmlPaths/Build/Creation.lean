import XmlPaths.Build.Outcome
import XmlPaths.Build.Placement
import XmlPaths.Tree.Uri

/-!
# Making what a step describes

* `ChildStep.name`         the name of a step's elements, for the namespaces of the prefixes;
* `ChildStep.blueprint`    the name and the attributes of a new element;
* `addElement`            a new element at the end of its parent, or behind named children;
* `addAttribute`          a new empty attribute;
* `addStep`               one or the other, as the step says.
-/

namespace XmlPaths

def ChildStep.name (s : ChildStep) (ns : Namespaces) : Except Failure Name :=
  match s.nsPrefix with
  | none => if isNcName s.localName then .ok ⟨none, s.localName⟩ else .error (.refused .invalidName)
  | some p =>
    match ns.value? p with
    | none => .error (.undefinedPrefix p s)
    | some uri =>
      if uri.isEmpty then .error (.undefinedPrefix p s)
      else
        match Name.inSpace? uri s.localName with
        | some n => .ok n
        | none => .error (.refused .invalidName)

/-- why there can't be an element with the name and the attributes -/
def elementRefusal? (n : Name) (attributes : Entries) : Option Refusal :=
  if !n.isValid then some .invalidName
  else if !Uri.isUriReference (n.space.getD "") then some .invalidNamespace
  else if attributes.any (!isNcName ·.1) then some .invalidName
  else if attributes.any (!isMarkupText ·.2) then some .illegalText
  else none

/-- The name and the attributes of a new element.  Conflicts are met once the name is known. -/
def ChildStep.blueprint (s : ChildStep) (f : Forest) (ns : Namespaces) :
    Outcome (Name × List Attribute) :=
  match s.name ns with
  | .error e => .fail f e
  | .ok n =>
    let entries := (Derivation.ofComparisons s.comparisons).attributes
    let attributes := entries.map fun e => ⟨⟨none, e.1⟩, e.2⟩
    ⟨f, s.conflicts,
      (elementRefusal? n entries).elim (.ok (n, attributes)) fun r => .error (.refused r)⟩

/-- a place among the children: behind the named ones, or at the end if there are no names -/
def placeOf (f : Forest) (parent : NodeId) (names : Option (List String)) (ns : Namespaces) :
    Except Failure Forest.Place :=
  match names with
  | none => .ok (.last parent)
  | some names => placeBehind f parent names ns

/-- a new element as the step describes it, among the children of `parent` -/
def addElement (f : Forest) (parent : NodeId) (s : ChildStep) (ns : Namespaces)
    (names : Option (List String)) : Outcome NodeId :=
  (s.blueprint f ns).andThen fun f (n, attributes) =>
    match placeOf f parent names ns with
    | .error e => .fail f e
    | .ok p =>
      match p.refusal? f with
      | some r => .fail f (.refused r)
      | none =>
        let (f', x) := f.create n attributes p
        .done f' x

/-- a new attribute without a value; there must not be one of the name already -/
def addAttribute (f : Forest) (x : NodeId) (name : String) : Outcome AttributeHandle :=
  match (f.node? x).bind Node.element? with
  | none => .fail f (.refused .noAttributes)
  | some e =>
    if (e.attribute? ⟨none, name⟩).isSome then .fail f (.attributeExists e.name name)
    else if isNcName name then
      .done (f.setAttribute x ⟨none, name⟩ "") ⟨x, name⟩
    else .fail f (.refused .invalidName)

def addStep (f : Forest) (context : Selected) (step : Step) (ns : Namespaces)
    (names : Option (List String)) : Outcome Selected :=
  match context with
  | .node x =>
    match step with
    | .element s => (addElement f x s ns names).andThen fun f y => .done f (.node y)
    | .attribute n => (addAttribute f x n).andThen fun f h => .done f (.attribute h)
  | _ => .fail f (.refused .notAnElement)

end XmlPaths

import XmlPaths.Build.Creation
import XmlPaths.Path.Parser

/-!
# Building what a path describes

The steps of a path are followed one after the other; what is missing is made.

* `Mode`            whether nodes that are there already are used;
* `follow`          follows the steps of a path;
* `build`           the node that an expression describes, made as far as it is missing;
* `buildElement`    the same for expressions that end with an element;
* `ensure`          a tree in which the expression selects something: the given one or a copy.
-/

namespace XmlPaths

inductive Mode where
  | reuse
  | anew
deriving DecidableEq

structure Site where
  root : NodeId
  namespaces : Namespaces
  mode : Mode
deriving DecidableEq

/-- the node that is used for the part of an expression up to a step -/
def Site.existing? (s : Site) (f : Forest) (expression : String) :
    Except Failure (Option Selected) :=
  match s.mode with
  | .anew => .ok none
  | .reuse => (selectFrom f s.root expression s.namespaces).map List.head?

/-- follows the steps, each given with the part of the expression up to it, and makes what is
missing; the names count for the first step only -/
def follow (s : Site) (f : Forest) (context : Selected) (names : Option (List String)) :
    List (String × Step) → Outcome Selected
  | [] => .done f context
  | (expression, step) :: rest =>
    match s.existing? f expression with
    | .error e => .fail f e
    | .ok (some found) => follow s f found none rest
    | .ok none =>
      (addStep f context step s.namespaces names).andThen fun f' made =>
        follow s f' made none rest

def confirm (s : Site) (f : Forest) (expression : String) (built : Selected) :
    Outcome Selected :=
  match selectFrom f s.root expression s.namespaces with
  | .error e => .fail f e
  | .ok [] => .fail f (.notLocated expression)
  | .ok (_ :: _) => .done f built

def buildPath (s : Site) (f : Forest) (p : Path) (names : Option (List String)) :
    Outcome Selected :=
  (follow s f (.node s.root) names p.beginnings).andThen fun f' built =>
    confirm s f' p.expression built

def build (s : Site) (f : Forest) (expression : String) : Outcome Selected :=
  match Path.parse expression with
  | .error e => .fail f (.path e)
  | .ok p => buildPath s f p none

/-- The element that an expression describes.  An element for the first step is put behind the
children of the given names, if names are given. -/
def buildElement (s : Site) (f : Forest) (expression : String)
    (names : Option (List String)) : Outcome NodeId :=
  match Path.parse expression with
  | .error e => .fail f (.path e)
  | .ok p =>
    if p.endsInAttribute then .fail f (.endsInAttribute expression)
    else
      (buildPath s f p names).andThen fun f' built =>
        match built with
        | .node x => .done f' x
        | _ => .fail f' (.refused .notAnElement)

/-- The node itself if the expression selects something from it, otherwise a copy in which what the
expression describes is made as far as it is missing. -/
def ensure (f : Forest) (root : NodeId) (ns : Namespaces) (expression : String) :
    Outcome NodeId :=
  match Path.parse expression with
  | .error e => .fail f (.path e)
  | .ok p =>
    match selectFrom f root expression ns with
    | .error e => .fail f e
    | .ok (_ :: _) => .done f root
    | .ok [] =>
      match f.copy root with
      | none => .fail f (.refused .notAnElement)
      | some (f', copy) =>
        (buildPath ⟨copy, ns, .reuse⟩ f' p none).andThen fun f'' _ => .done f'' copy

end XmlPaths

import XmlPaths.Selection

/-!
# Places of children

A child is put behind the last of its siblings-to-be that bears a preferred name.

* `placeBehind`            the place behind the named children, or in front of all children;
* `Forest.refusal?`        why no node can be put at a place;
* `Forest.insert`          puts the topmost node of a tree at a place;
* `insertBehind`           puts a node without parent behind the named children of another one.
-/

namespace XmlPaths

def lastNamed (name : String) : String := name ++ "[last()]"

/-- the place behind the first node that one of the names selects, of which the first one that
selects any counts -/
def placeByPriority (f : Forest) (parent : NodeId) (ns : Namespaces) :
    List String → Except Failure Forest.Place
  | [] => .ok (.first parent)
  | name :: rest =>
    match selectFrom f parent (lastNamed name) ns with
    | .error e => .error e
    | .ok [] => placeByPriority f parent ns rest
    | .ok (.node x :: _) => .ok (.after x)
    | .ok (_ :: _) => .error (.refused .notAnElement)

/-- The place behind the last child that bears the last one of the names that any child has; if no
child has one of them, it is in front of all children. -/
def placeBehind (f : Forest) (parent : NodeId) (names : List String) (ns : Namespaces) :
    Except Failure Forest.Place := placeByPriority f parent ns names.reverse

namespace Forest

def isRoot (f : Forest) (x : NodeId) : Bool := f.trees.any fun t => t.attached && t.top.id == x

/-- why no element can be put at a place -/
def Place.refusal? (f : Forest) : Place → Option Refusal
  | .first p => if f.isLeaf p then some .noChildren else none
  | .last p => if f.isLeaf p then some .noChildren else none
  | .after s => if f.isRoot s then some .besideRoot else none

/-- the node that a place is next to or in -/
def Place.node : Place → NodeId
  | .first p => p
  | .last p => p
  | .after s => s

/-- whether a node already is where the place is -/
def Place.isAt (x : NodeId) : Place → Bool
  | .after s => s == x
  | _ => false

/-- makes a tree one of the given document, without being its root -/
def release (f : Forest) (x : NodeId) (document : Nat) : Forest :=
  { f with trees := f.trees.map fun t =>
      if t.top.id = x then { t with document := document, attached := false } else t }

/-- Puts the topmost node of a tree at a place.  Behind a detached node it only becomes another
detached node of the same document.  Beside the root of a document only a comment or an instruction
can stand; it is no part of a tree there, and loses its tail. -/
def insert (f : Forest) (x : NodeId) (p : Place) : Except Refusal Forest :=
  match p.refusal? f with
  | some .besideRoot =>
    if f.isLeaf x then .ok (f.update x (Node.withTail none)) else .error .besideRoot
  | some r => .error r
  | none =>
    if p.isAt x then .ok f
    else if (f.lineage p.node).any (·.id == x) then .error .belowItself
    else
      match p, f.tree? p.node with
      | .after s, some t => if t.top.id = s then .ok (f.release x t.document) else .ok (f.move x p)
      | _, _ => .ok (f.move x p)

end Forest

def insertBehind (f : Forest) (parent child : NodeId) (names : List String) (ns : Namespaces) :
    Except Failure Forest :=
  match f.parent? child with
  | some _ => .error .stillAttached
  | none =>
    match placeBehind f parent names ns with
    | .error e => .error e
    | .ok p => (f.insert child p).mapError .refused

theorem placeBehind_nil (f : Forest) (parent : NodeId) (ns : Namespaces) :
    placeBehind f parent [] ns = .ok (.first parent) := rfl

end XmlPaths

import XmlPaths.Tree.Node

/-!
# Forests of documents

All trees that are at hand together, each with the document it belongs to.  A tree is the root
element of its document, or it was detached from another tree of it.

* `Tree`, `Forest`       trees with their documents;
* `Forest.node?`, `Forest.parent?`, `Forest.lineage`   a node of a forest and what is above it;
* `Forest.plant`         a new document whose root is a copy of a node;
* `Forest.update`        a change of one node;
* `Forest.extract?`, `Forest.detach`   taking a node out of its tree;
* `Forest.setAttribute`, `Forest.removeAttribute`   changes of attributes;
* `Forest.Place`, `Forest.graft`   where children are put, and putting one there;
* `Forest.create`, `Forest.move`   a new element, or one that is there already, at a place;
* `Forest.copy`, `Forest.copyTree`   copies in documents of their own;
* `Forest.WellFormed`    no identity is borne twice, and the next one is still free.
-/

namespace XmlPaths

structure Tree where
  document : Nat
  attached : Bool
  top : Node

structure Forest where
  trees : List Tree
  next : NodeId

namespace Forest

def empty : Forest := ⟨[], 0⟩

def nodes (f : Forest) : List Node := f.trees.flatMap (·.top.nodes)

def ids (f : Forest) : List NodeId := f.nodes.map Node.id

/-- no identity is borne twice, and the next one is still free -/
structure WellFormed (f : Forest) : Prop where
  nodup : f.ids.Nodup
  lt_next : ∀ x ∈ f.ids, x < f.next

def node? (f : Forest) (x : NodeId) : Option Node := f.nodes.find? (·.id == x)

def parent? (f : Forest) (x : NodeId) : Option Node := f.nodes.find? (·.hasChild x)

def isElement (f : Forest) (x : NodeId) : Bool := (f.node? x).any Node.isElement

/-- whether a node is a comment or an instruction -/
def isLeaf (f : Forest) (x : NodeId) : Bool := (f.node? x).any (!·.isElement)

def lineage (f : Forest) (x : NodeId) : List Node :=
  (f.trees.findSome? (·.top.lineage? x)).getD []

def tree? (f : Forest) (x : NodeId) : Option Tree :=
  f.trees.find? fun t => (t.top.node? x).isSome

def root? (f : Forest) (document : Nat) : Option Node :=
  (f.trees.find? fun t => t.document == document && t.attached).map Tree.top

/-- a new document whose root is a copy of the node, and the identity of that root -/
def plant (f : Forest) (n : Node) : Forest × NodeId :=
  let (n', next) := n.relabel f.next
  (⟨f.trees ++ [⟨f.next, true, n'⟩], next⟩, f.next)

def update (f : Forest) (x : NodeId) (g : Node → Node) : Forest :=
  { f with trees := f.trees.map fun t => { t with top := t.top.update x g } }

def extract? (f : Forest) (x : NodeId) : Option (Node × Forest) :=
  (f.node? x).map fun n =>
    (n, { f with trees := (f.trees.filter (·.top.id ≠ x)).map fun t =>
      { t with top := t.top.without x } })

/-- takes a node out of its tree; it becomes a tree of its own, its tail goes with it -/
def detach (f : Forest) (x : NodeId) : Forest :=
  match f.parent? x, f.tree? x, f.extract? x with
  | some _, some t, some (n, f') => { f' with trees := f'.trees ++ [⟨t.document, false, n⟩] }
  | _, _, _ => f

def setAttribute (f : Forest) (x : NodeId) (n : Name) (v : String) : Forest :=
  f.update x (Node.mapElement (·.setAttribute n v))

def removeAttribute (f : Forest) (x : NodeId) (n : Name) : Forest :=
  f.update x (Node.mapElement (·.removeAttribute n))

/-- Where a node is put: below a parent as its first or last child, or behind a sibling. -/
inductive Place where
  | first (parent : NodeId)
  | last (parent : NodeId)
  | after (sibling : NodeId)
deriving DecidableEq

/-- a list of siblings with a node put behind the one of an identity -/
def putAfter (x : NodeId) (n : Node) (ns : List Node) : List Node :=
  ns.flatMap fun m => if m.id = x then [m, n] else [m]

/-- puts a node, which is not yet in the forest, at a place -/
def graft (f : Forest) (n : Node) : Place → Forest
  | .first p => f.update p (Node.withChildren (n :: ·))
  | .last p => f.update p (Node.withChildren (· ++ [n]))
  | .after s =>
    match f.parent? s with
    | some p => f.update p.id (Node.withChildren (putAfter s n))
    | none => f

/-- a new element, without text and children, at a place -/
def create (f : Forest) (name : Name) (attributes : List Attribute) (p : Place) :
    Forest × NodeId :=
  ({ f with next := f.next + 1 }.graft (.element f.next ⟨name, attributes, none⟩ [] none) p,
   f.next)

def move (f : Forest) (x : NodeId) (p : Place) : Forest :=
  match f.extract? x with
  | some (n, f') => f'.graft n p
  | none => f

/-- a copy of a node in a document of its own, without its tail -/
def copy (f : Forest) (x : NodeId) : Option (Forest × NodeId) :=
  (f.node? x).map fun n => f.plant (n.withTail none)

/-- a copy of a whole tree, of which the node is the root; its tail is copied as well -/
def copyTree (f : Forest) (x : NodeId) : Option (Forest × NodeId) := (f.node? x).map f.plant

theorem wellFormed_empty : empty.WellFormed :=
  ⟨List.nodup_nil, fun x h => absurd h (by simp [ids, nodes, empty])⟩

end Forest

end XmlPaths

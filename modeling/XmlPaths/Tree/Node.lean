import XmlPaths.Tree.Name

/-!
# Nodes of documents

Elements hold attributes in order, an optional text before their first child, and children.
Every node but the top one may be followed by a text, its tail, which belongs to it: the tail
moves along with the node.  All nodes have an identity, which they keep when they are moved.

* `Element`, `Leaf`, `Node`   what nodes hold;
* `Node.nodes`         the node and its descendants in document order;
* `Node.update`        a change of one node, wherever it is;
* `Node.without`       the tree without one of the nodes below its top;
* `Node.relabel`       a copy with new identities;
* `Node.content`       the text in an element.
-/

namespace XmlPaths

abbrev NodeId := Nat

structure Attribute where
  name : Name
  value : String
deriving DecidableEq

structure Element where
  name : Name
  attributes : List Attribute
  text : Option String
deriving DecidableEq

/-- what has no children -/
inductive Leaf where
  | comment (text : String)
  | instruction (target data : String)
deriving DecidableEq

inductive Node where
  | element (id : NodeId) (info : Element) (children : List Node) (tail : Option String)
  | leaf (id : NodeId) (info : Leaf) (tail : Option String)

/-! ## attributes -/

def Element.attribute? (e : Element) (n : Name) : Option String :=
  (e.attributes.find? (·.name == n)).map Attribute.value

/-- sets an attribute: a new one is the last, one that exists keeps its place -/
def Element.setAttribute (e : Element) (n : Name) (v : String) : Element :=
  if (e.attribute? n).isSome then
    { e with attributes := e.attributes.map fun a => if a.name = n then ⟨n, v⟩ else a }
  else { e with attributes := e.attributes ++ [⟨n, v⟩] }

def Element.removeAttribute (e : Element) (n : Name) : Element :=
  { e with attributes := e.attributes.filter fun a => a.name ≠ n }

namespace Node

def id : Node → NodeId
  | element i _ _ _ => i
  | leaf i _ _ => i

def tail : Node → Option String
  | element _ _ _ t => t
  | leaf _ _ t => t

def withTail (t : Option String) : Node → Node
  | element i e cs _ => element i e cs t
  | leaf i l _ => leaf i l t

def children : Node → List Node
  | element _ _ cs _ => cs
  | leaf _ _ _ => []

def withChildren (f : List Node → List Node) : Node → Node
  | element i e cs t => element i e (f cs) t
  | leaf i l t => leaf i l t

def element? : Node → Option Element
  | element _ e _ _ => some e
  | leaf _ _ _ => none

def isElement (n : Node) : Bool := n.element?.isSome

def mapElement (f : Element → Element) : Node → Node
  | element i e cs t => element i (f e) cs t
  | leaf i l t => leaf i l t

/-! ## the nodes of a tree -/

mutual

/-- the node and all nodes below it, in document order -/
def nodes : Node → List Node
  | element i e cs t => element i e cs t :: nodesOfAll cs
  | leaf i l t => [leaf i l t]

def nodesOfAll : List Node → List Node
  | [] => []
  | n :: ns => n.nodes ++ nodesOfAll ns

end

def ids (n : Node) : List NodeId := n.nodes.map Node.id

def node? (x : NodeId) (n : Node) : Option Node := n.nodes.find? (·.id == x)

def hasChild (x : NodeId) (n : Node) : Bool := n.children.any (·.id == x)

def parent? (x : NodeId) (n : Node) : Option Node := n.nodes.find? (·.hasChild x)

mutual

/-- the nodes from the one of an identity up to the top -/
def lineage? (x : NodeId) : Node → Option (List Node)
  | element i e cs t =>
    if i = x then some [element i e cs t]
    else (lineageInAll? x cs).map (· ++ [element i e cs t])
  | leaf i l t => if i = x then some [leaf i l t] else none

def lineageInAll? (x : NodeId) : List Node → Option (List Node)
  | [] => none
  | n :: ns => (n.lineage? x).or (lineageInAll? x ns)

end

/-! ## changes -/

mutual

def update (x : NodeId) (f : Node → Node) : Node → Node
  | element i e cs t =>
    if i = x then f (element i e cs t) else element i e (updateAll x f cs) t
  | leaf i l t => if i = x then f (leaf i l t) else leaf i l t

def updateAll (x : NodeId) (f : Node → Node) : List Node → List Node
  | [] => []
  | n :: ns => n.update x f :: updateAll x f ns

end

mutual

/-- the tree without the node of an identity, of which it is not the top -/
def without (x : NodeId) : Node → Node
  | element i e cs t => element i e (withoutAll x cs) t
  | leaf i l t => leaf i l t

def withoutAll (x : NodeId) : List Node → List Node
  | [] => []
  | n :: ns => if n.id = x then withoutAll x ns else n.without x :: withoutAll x ns

end

mutual

/-- A copy whose nodes have the identities from `k` on, in document order, and the next one. -/
def relabel (k : NodeId) : Node → Node × NodeId
  | element _ e cs t =>
    let (cs', k') := relabelAll (k + 1) cs
    (element k e cs' t, k')
  | leaf _ l t => (leaf k l t, k + 1)

def relabelAll (k : NodeId) : List Node → List Node × NodeId
  | [] => ([], k)
  | n :: ns =>
    let (n', k') := n.relabel k
    let (ns', k'') := relabelAll k' ns
    (n' :: ns', k'')

end

/-! ## text -/

mutual

/-- the text in an element, without that of comments and instructions -/
def content : Node → String
  | element _ e cs _ => e.text.getD "" ++ contentOfAll cs
  | leaf _ _ _ => ""

def contentOfAll : List Node → String
  | [] => ""
  | n :: ns => n.content ++ n.tail.getD "" ++ contentOfAll ns

end

/-! ## small facts -/

theorem nodesOfAll_eq_flatMap (ns : List Node) : nodesOfAll ns = ns.flatMap nodes := by
  induction ns with
  | nil => rfl
  | cons n ns ih => rw [nodesOfAll, ih, List.flatMap_cons]

theorem nodes_element (i : NodeId) (e : Element) (cs : List Node) (t : Option String) :
    (element i e cs t).nodes = element i e cs t :: cs.flatMap nodes := by
  rw [nodes, nodesOfAll_eq_flatMap]

theorem nodes_leaf (i : NodeId) (l : Leaf) (t : Option String) :
    (leaf i l t).nodes = [leaf i l t] := by
  rw [nodes]

theorem self_mem_nodes (n : Node) : n ∈ n.nodes := by
  cases n <;> simp [nodes]

theorem updateAll_eq_map (x : NodeId) (f : Node → Node) (ns : List Node) :
    updateAll x f ns = ns.map (update x f) := by
  induction ns with
  | nil => rfl
  | cons n ns ih => rw [updateAll, ih, List.map_cons]

theorem withoutAll_eq_map (x : NodeId) (ns : List Node) :
    withoutAll x ns = (ns.filter (·.id ≠ x)).map (without x) := by
  induction ns with
  | nil => rfl
  | cons n ns ih =>
    by_cases h : n.id = x <;> simp [withoutAll, h, ih]

@[simp] theorem id_withTail (t : Option String) (n : Node) : (n.withTail t).id = n.id := by
  cases n <;> rfl

@[simp] theorem id_mapElement (f : Element → Element) (n : Node) : (n.mapElement f).id = n.id := by
  cases n <;> rfl

@[simp] theorem id_withChildren (f : List Node → List Node) (n : Node) :
    (n.withChildren f).id = n.id := by
  cases n <;> rfl

end Node

end XmlPaths

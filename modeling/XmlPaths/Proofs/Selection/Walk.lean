import XmlPaths.Path.Basic
import XmlPaths.Proofs.Tree.Nodes
import XmlPaths.Selection

/-!
# Walking along a path

What the steps of a path select, said without an expression: from a node one goes to its children
that meet a step, and from each of them on.

* `Namespaces.space?`, `ChildStep.nameIn`   the names that steps ask for;
* `Element.meets`, `Node.meets`   whether a node has what a comparison demands;
* `Node.walk`                   what the steps lead to from a node;
* `Node.walk_sublist`           it is met in document order.
-/

namespace XmlPaths

/-! ## the names of steps -/

/-- the namespace of a prefix; the one of `xml` is fixed -/
def Namespaces.space? (ns : Namespaces) (p : String) : Option String :=
  if p = "xml" then some xmlSpace else ns.value? p

/-- the name that a step asks for; without a prefix it has no namespace -/
def ChildStep.nameIn (s : ChildStep) (ns : Namespaces) : Name :=
  ⟨s.nsPrefix.bind ns.space?, s.localName⟩

def Step.nsPrefix? : Step → Option String
  | .element s => s.nsPrefix
  | .attribute _ => none

def Namespaces.Bind (ns : Namespaces) (steps : List Step) : Prop :=
  ∀ s ∈ steps, ∀ p ∈ s.nsPrefix?, (ns.space? p).isSome = true

/-! ## what steps demand -/

/-- whether an element has the attribute of a comparison, with the value if one is demanded -/
def Element.meets (e : Element) (k : Comparison) : Bool :=
  match k.value with
  | none => (e.attribute? ⟨none, k.name⟩).isSome
  | some v => e.attribute? ⟨none, k.name⟩ == some v

/-- the node that a member of a selection is or belongs to -/
def Selected.owner : Selected → NodeId
  | .node x => x
  | .attribute h => h.element
  | .text _ => 0

namespace Node

def hasAttribute (n : Node) (a : String) : Bool :=
  n.element?.any fun e => (e.attribute? ⟨none, a⟩).isSome

def meets (n : Node) (k : Comparison) : Bool := n.element?.any (·.meets k)

def isNamed (n : Node) (name : Name) : Bool := n.element?.any (·.name == name)

def fits (ns : Namespaces) (s : ChildStep) (n : Node) : Bool :=
  n.isNamed (s.nameIn ns) && s.comparisons.all n.meets

def childrenAt (n : Node) (ns : Namespaces) (s : ChildStep) : List Node :=
  n.children.filter (fits ns s)

/-- What steps lead to from a node, in document order.  No step leads on from an attribute, which
paths only end with. -/
def walk (ns : Namespaces) : List Step → Node → List Selected
  | [], n => [.node n.id]
  | .element s :: rest, n => (n.childrenAt ns s).flatMap (walk ns rest)
  | .attribute a :: _, n => if n.hasAttribute a then [.attribute ⟨n.id, a⟩] else []

/-! ## document order -/

/-- a node and its attributes as members of a selection -/
def ownSelected (n : Node) : List Selected :=
  .node n.id :: (n.element?.elim [] fun e => e.attributes.map fun a =>
    .attribute ⟨n.id, a.name.universal⟩)

/-- all elements and attributes of a tree that can be selected, in document order -/
def selectable (n : Node) : List Selected := n.nodes.flatMap ownSelected

theorem mem_attributes_of_hasAttribute {n : Node} {a : String} (h : n.hasAttribute a = true) :
    ∃ e, n.element? = some e ∧ ∃ b ∈ e.attributes, b.name = ⟨none, a⟩ := by
  rw [hasAttribute] at h
  cases he : n.element? with
  | none =>
    rw [he] at h
    exact absurd h (by simp)
  | some e =>
    rw [he, Option.any_some, Element.attribute?, Option.isSome_map, List.find?_isSome] at h
    obtain ⟨b, hb, hname⟩ := h
    exact ⟨e, rfl, b, hb, by simpa using hname⟩

theorem walk_sublist (ns : Namespaces) (steps : List Step) (n : Node) :
    (n.walk ns steps).Sublist n.selectable := by
  induction steps generalizing n with
  | nil =>
    rw [walk, selectable, nodes_eq, List.flatMap_cons, ownSelected]
    exact List.singleton_sublist.2 (by simp)
  | cons s rest ih =>
    cases s with
    | element s =>
      have hchildren : ((n.childrenAt ns s).flatMap (walk ns rest)).Sublist
          (n.children.flatMap selectable) :=
        ((List.filter_sublist).flatMap _).trans (List.Sublist.flatMap_right _ fun c _ => ih c)
      have hall : n.children.flatMap selectable =
          (n.children.flatMap nodes).flatMap ownSelected := List.flatMap_assoc.symm
      rw [walk, selectable]
      rw [hall] at hchildren
      exact hchildren.trans ((children_sublist_nodes n).flatMap _)
    | «attribute» a =>
      rw [walk]
      split
      · next h =>
        obtain ⟨e, he, b, hb, hname⟩ := mem_attributes_of_hasAttribute h
        rw [List.singleton_sublist, selectable, nodes_eq, List.flatMap_cons]
        refine List.mem_append_left _ (List.mem_cons_of_mem _ ?_)
        rw [he]
        refine List.mem_map.2 ⟨b, hb, ?_⟩
        rw [hname]
        rfl
      · exact List.nil_sublist _

/-! ## nothing is met twice -/

theorem map_owner_walk_sublist (ns : Namespaces) (steps : List Step) (n : Node) :
    ((n.walk ns steps).map Selected.owner).Sublist n.ids := by
  induction steps generalizing n with
  | nil =>
    rw [walk, ids, nodes_eq]
    exact List.singleton_sublist.2 List.mem_cons_self
  | cons s rest ih =>
    cases s with
    | element s =>
      have hchildren : ((n.childrenAt ns s).flatMap fun c =>
          (c.walk ns rest).map Selected.owner).Sublist (n.children.flatMap ids) :=
        ((List.filter_sublist).flatMap _).trans (List.Sublist.flatMap_right _ fun c _ => ih c)
      have hall : n.children.flatMap ids = (n.children.flatMap nodes).map id :=
        List.map_flatMap.symm
      rw [walk, List.map_flatMap, ids]
      rw [hall] at hchildren
      exact hchildren.trans ((children_sublist_nodes n).map id)
    | «attribute» a =>
      rw [walk, ids, nodes_eq]
      split
      · exact List.singleton_sublist.2 List.mem_cons_self
      · exact List.nil_sublist _

theorem nodup_walk {n : Node} (h : n.ids.Nodup) (ns : Namespaces) (steps : List Step) :
    (n.walk ns steps).Nodup :=
  List.Nodup.of_map Selected.owner ((map_owner_walk_sublist ns steps n).nodup h)

/-- What follows a node does not count. -/
theorem walk_withTail (ns : Namespaces) (steps : List Step) (n : Node) (t : Option String) :
    (n.withTail t).walk ns steps = n.walk ns steps := by
  cases steps with
  | nil => rw [walk, walk, id_withTail]
  | cons s rest => cases n <;> cases s <;> rfl

end Node

end XmlPaths

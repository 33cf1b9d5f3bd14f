import XmlPaths.Tree.Forest
import XmlPaths.XPath.Syntax

/-!
# Axes

Expressions see more nodes than a tree lists: its texts, its attributes and the document above the
root are nodes as well.  A reference tells such a node by the node of the tree that it hangs on.

* `Ref`                 references to all kinds of nodes;
* `Forest.refs`         all of them in document order;
* `Forest.inOrder`      a set of references in document order, without duplicates;
* `Forest.axis`         the nodes on an axis, the nearest ones first;
* `Forest.stringValue`  the text that a node stands for.
-/

namespace XmlPaths

inductive Ref where
  | document (d : Nat)
  | node (x : NodeId)
  | text (x : NodeId)
  | tail (x : NodeId)
  | attribute (x : NodeId) (n : Name)
deriving DecidableEq

namespace Node

def textRefs (n : Node) : List Ref :=
  match n.element?.bind Element.text with
  | some _ => [.text n.id]
  | none => []

def tailRefs (n : Node) : List Ref :=
  match n.tail with
  | some _ => [.tail n.id]
  | none => []

def attributeRefs (n : Node) : List Ref :=
  match n.element? with
  | some e => e.attributes.map fun a => .attribute n.id a.name
  | none => []

def childRefs (n : Node) : List Ref :=
  n.textRefs ++ n.children.flatMap fun c => .node c.id :: c.tailRefs

mutual

def refs : Node → List Ref
  | element i e cs t =>
    .node i :: (element i e cs t).attributeRefs ++ (element i e cs t).textRefs ++ refsOfAll cs
  | leaf i _ _ => [.node i]

def refsOfAll : List Node → List Ref
  | [] => []
  | n :: ns => n.refs ++ n.tailRefs ++ refsOfAll ns

end

theorem refsOfAll_eq_flatMap (ns : List Node) :
    refsOfAll ns = ns.flatMap fun n => n.refs ++ n.tailRefs := by
  induction ns with
  | nil => rfl
  | cons n ns ih => rw [refsOfAll, ih, List.flatMap_cons]

end Node

def Ref.isAttribute : Ref → Bool
  | .attribute _ _ => true
  | _ => false

namespace Forest

def refs (f : Forest) : List Ref :=
  f.trees.flatMap fun t =>
    (if t.attached then [.document t.document] else []) ++ t.top.refs ++ t.top.tailRefs

/-- a set of nodes in document order, without duplicates -/
def inOrder (f : Forest) (rs : List Ref) : List Ref := f.refs.filter fun r => rs.contains r

/-- the document that a node is in, if the node is not in a detached tree -/
def documentAbove (f : Forest) (x : NodeId) : List Ref :=
  match f.tree? x with
  | some t => if t.attached then [.document t.document] else []
  | none => []

/-- the root of a document and the text behind it, or a detached node and its tail -/
def topRefs (n : Node) : List Ref := .node n.id :: n.tailRefs

def children (f : Forest) : Ref → List Ref
  | .document d => (f.root? d).elim [] topRefs
  | .node x => (f.node? x).elim [] Node.childRefs
  | _ => []

/-- what a node is in, from the nearest to the document -/
def ancestors (f : Forest) : Ref → List Ref
  | .document _ => []
  | .node x => ((f.lineage x).drop 1).map (.node ·.id) ++ f.documentAbove x
  | .tail x => ((f.lineage x).drop 1).map (.node ·.id) ++ f.documentAbove x
  | .text x => (f.lineage x).map (.node ·.id) ++ f.documentAbove x
  | .attribute x _ => (f.lineage x).map (.node ·.id) ++ f.documentAbove x

def descendants (f : Forest) : Ref → List Ref
  | .document d => (f.root? d).elim [] fun n => (n.refs ++ n.tailRefs).filter (!·.isAttribute)
  | .node x => (f.node? x).elim [] fun n => (n.refs.drop 1).filter (!·.isAttribute)
  | _ => []

def attributes (f : Forest) : Ref → List Ref
  | .node x => (f.node? x).elim [] Node.attributeRefs
  | _ => []

/-- the children of the parent of a node, or what stands at the top of its tree -/
def siblingsOf (f : Forest) (x : NodeId) : List Ref :=
  match f.parent? x with
  | some p => p.childRefs
  | none => (f.node? x).elim [] topRefs

def siblings (f : Forest) : Ref → List Ref
  | .node x => f.siblingsOf x
  | .tail x => f.siblingsOf x
  | .text x => (f.node? x).elim [] Node.childRefs
  | _ => []

def owner? : Ref → Option NodeId
  | .document _ => none
  | .node x => some x
  | .text x => some x
  | .tail x => some x
  | .attribute x _ => some x

/-- all nodes of the tree that a node is in, in document order -/
def refsAround (f : Forest) (r : Ref) : List Ref :=
  ((owner? r).bind f.tree?).elim [] fun t => t.top.refs ++ t.top.tailRefs

def behind (r : Ref) (rs : List Ref) : List Ref := (rs.dropWhile (· != r)).drop 1

/-- the items of a list in front of one of them, nothing if it isn't there -/
def inFront (r : Ref) (rs : List Ref) : List Ref :=
  if rs.contains r then rs.takeWhile (· != r) else []

/-- the nodes on an axis, the nearest ones first -/
def axis (f : Forest) : XPath.Axis → Ref → List Ref
  | .self, r => [r]
  | .child, r => f.children r
  | .attribute, r => f.attributes r
  | .parent, r => (f.ancestors r).take 1
  | .ancestor, r => f.ancestors r
  | .ancestorOrSelf, r => r :: f.ancestors r
  | .descendant, r => f.descendants r
  | .descendantOrSelf, r => r :: f.descendants r
  | .followingSibling, r => behind r (f.siblings r)
  | .precedingSibling, r => (inFront r (f.siblings r)).reverse
  | .following, r =>
    (behind r (f.refsAround r)).filter fun x => !x.isAttribute && !(f.descendants r).contains x
  | .preceding, r =>
    ((inFront r (f.refsAround r)).filter fun x =>
      !x.isAttribute && !(f.ancestors r).contains x).reverse
  | .namespaces, _ => []

def stringValue (f : Forest) : Ref → String
  | .document d => (f.root? d).elim "" fun n => n.content ++ n.tail.getD ""
  | .node x =>
    match f.node? x with
    | some (.leaf _ (.comment t) _) => t
    | some (.leaf _ (.instruction _ d) _) => d
    | some n => n.content
    | none => ""
  | .text x => ((f.node? x).bind Node.element?).bind Element.text |>.getD ""
  | .tail x => (f.node? x).bind Node.tail |>.getD ""
  | .attribute x n => ((f.node? x).bind Node.element?).bind (·.attribute? n) |>.getD ""

def nameOf? (f : Forest) : Ref → Option Name
  | .node x => ((f.node? x).bind Node.element?).map Element.name
  | .attribute _ n => some n
  | _ => none

theorem nodup_inOrder {f : Forest} (h : f.refs.Nodup) (rs : List Ref) : (f.inOrder rs).Nodup :=
  h.filter _

theorem mem_inOrder {f : Forest} {rs : List Ref} {r : Ref} :
    r ∈ f.inOrder rs ↔ r ∈ f.refs ∧ r ∈ rs := by
  simp [inOrder]

end Forest

end XmlPaths

import XmlPaths.Entries
import XmlPaths.Failure
import XmlPaths.XPath.Eval
import XmlPaths.XPath.Parser

/-!
# Selecting nodes with expressions

* `Namespaces`      the namespaces that prefixes stand for;
* `AttributeHandle`, `Selected`   what can be selected;
* `selectFrom`   the nodes that an expression selects from a node, in document order.
-/

namespace XmlPaths

abbrev Namespaces := Entries

/-- The bindings of a list of pairs, of which the last one of a prefix counts.  There is no default
namespace in expressions: pairs without a prefix bind nothing. -/
def Namespaces.ofPairs (pairs : List (Option String × String)) : Namespaces :=
  pairs.foldl (fun ns b =>
    match b.1 with
    | some p => if p.isEmpty then ns else Entries.put ns p b.2
    | none => ns) []

/-- what makes bindings unfit for evaluation; all are looked at, in order -/
def Namespaces.refusal? : Namespaces → Option Refusal
  | [] => none
  | (p, uri) :: rest =>
    if uri.isEmpty then some .emptyNamespace
    else if !isMarkupText p || !isMarkupText uri then some .illegalText
    else Namespaces.refusal? rest

/-- an attribute of an element, whether it exists or not, by its universal name -/
structure AttributeHandle where
  element : NodeId
  universalName : String
deriving DecidableEq

inductive Selected where
  | node (x : NodeId)
  | attribute (h : AttributeHandle)
  | text (s : String)
deriving DecidableEq

/-- the members of a selection for a node of the evaluation; the document itself is none -/
def Selected.ofRef (f : Forest) : Ref → Option Selected
  | .document _ => none
  | .node x => some (.node x)
  | .text x => some (.text (f.stringValue (.text x)))
  | .tail x => some (.text (f.stringValue (.tail x)))
  | .attribute x n => some (.attribute ⟨x, n.universal⟩)

def Selected.isElement (f : Forest) : Selected → Bool
  | .node x => f.isElement x
  | _ => false

def Selected.isAttribute : Selected → Bool
  | .attribute _ => true
  | _ => false

def evaluateNodes (f : Forest) (context : NodeId) (expression : String) (ns : Namespaces) :
    Except Failure (List Ref) :=
  match ns.refusal? with
  | some r => .error (.refused r)
  | none =>
    if !isMarkupText expression then .error (.refused .illegalText)
    else
      match XPath.parse? expression with
      | none => .error (.notEvaluated expression)
      | some e =>
        match XPath.eval ⟨f, ns⟩ ⟨.node context, 1, 1⟩ e with
        | .error _ => .error (.notEvaluated expression)
        | .ok (.nodes rs) => .ok rs
        | .ok _ => .error (.noNodeSet expression)

def selectFrom (f : Forest) (context : NodeId) (expression : String) (ns : Namespaces) :
    Except Failure (List Selected) :=
  (evaluateNodes f context expression ns).map fun rs => rs.filterMap (Selected.ofRef f)

theorem ofPairs_nil : Namespaces.ofPairs [] = [] := rfl

end XmlPaths

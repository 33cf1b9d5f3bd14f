import XmlPaths.XPath.Number

/-!
# The expression language

Expressions of the full language that nodes are selected with: location paths over all axes,
predicates, unions, comparisons, arithmetic and function calls.

* `Axis`, `NodeTest`   the parts of a location step;
* `BinaryOp`           the operators between two operands;
* `Expr`               expressions.
-/

namespace XmlPaths.XPath

inductive Axis where
  | ancestor
  | ancestorOrSelf
  | attribute
  | child
  | descendant
  | descendantOrSelf
  | following
  | followingSibling
  | namespaces
  | parent
  | preceding
  | precedingSibling
  | self
deriving DecidableEq

/-- the axis of a name -/
def Axis.ofName? (name : List Char) : Option Axis :=
  [("ancestor", Axis.ancestor), ("ancestor-or-self", .ancestorOrSelf), ("attribute", .attribute),
   ("child", .child), ("descendant", .descendant), ("descendant-or-self", .descendantOrSelf),
   ("following", .following), ("following-sibling", .followingSibling),
   ("namespace", .namespaces), ("parent", .parent), ("preceding", .preceding),
   ("preceding-sibling", .precedingSibling), ("self", .self)].lookup (String.ofList name)

/-- Which nodes of an axis a step selects; a name test without a prefix asks for no namespace. -/
inductive NodeTest where
  | all (nsPrefix : Option String)
  | named (nsPrefix : Option String) (localName : String)
  | anyNode
  | text
  | comment
  | instruction (target : Option String)
deriving DecidableEq

inductive BinaryOp where
  | or
  | and
  | eq
  | ne
  | lt
  | le
  | gt
  | ge
  | add
  | sub
  | mul
  | div
  | mod
  | union
deriving DecidableEq

inductive Expr where
  | context
  | root
  | step (source : Expr) (axis : Axis) (test : NodeTest) (predicates : List Expr)
  | filter (base predicate : Expr)
  | literal (text : String)
  | number (value : Number)
  | variable (name : String)
  | call (nsPrefix : Option String) (name : String) (arguments : List Expr)
  | binary (op : BinaryOp) (left right : Expr)
  | negate (operand : Expr)

/-- what `//` stands for between two steps -/
def Expr.descendants (source : Expr) : Expr := .step source .descendantOrSelf .anyNode []

end XmlPaths.XPath

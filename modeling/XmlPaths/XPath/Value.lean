import XmlPaths.XPath.Axis

/-!
# Values of expressions

* `Value`            node sets, texts, numbers and truth values;
* `Value.asText`, `Value.asNumber`, `Value.asTruth`   the conversions;
* `Value.compare`    comparisons; with a node set one of its nodes has to meet them.
-/

namespace XmlPaths.XPath

/-- what an expression evaluates to; node sets are in document order -/
inductive Value where
  | nodes (refs : List Ref)
  | text (s : String)
  | number (n : Number)
  | truth (b : Bool)

inductive EvalError where
  | undefinedPrefix (nsPrefix : String)
  | undefinedVariable (name : String)
  | unknownFunction (name : String)
  | wrongArguments (name : String)
  | noNodeSet
deriving DecidableEq

namespace Value

def asText (f : Forest) : Value → String
  | nodes (r :: _) => f.stringValue r
  | nodes [] => ""
  | text s => s
  | number n => n.toText
  | truth b => if b then "true" else "false"

def asNumber (f : Forest) : Value → Number
  | nodes rs => Number.ofText (asText f (nodes rs))
  | text s => Number.ofText s
  | number n => n
  | truth b => Number.ofNat (if b then 1 else 0)

def asTruth : Value → Bool
  | nodes rs => !rs.isEmpty
  | text s => !s.isEmpty
  | number n => n.truth
  | truth b => b

/-- whether two values of which none is a node set are equal -/
def scalarEq (f : Forest) (a b : Value) : Bool :=
  match a, b with
  | truth x, _ => x == b.asTruth
  | _, truth y => a.asTruth == y
  | number x, _ => x.eq (b.asNumber f)
  | _, number y => (a.asNumber f).eq y
  | _, _ => a.asText f == b.asText f

/-- equality and order of two values of which none is a node set -/
def scalarCompare (f : Forest) (op : BinaryOp) (a b : Value) : Bool :=
  match op with
  | .eq => scalarEq f a b
  | .ne => !scalarEq f a b
  | .lt => (a.asNumber f).lt (b.asNumber f)
  | .le => (a.asNumber f).le (b.asNumber f)
  | .gt => (b.asNumber f).lt (a.asNumber f)
  | .ge => (b.asNumber f).le (a.asNumber f)
  | _ => false

/-- Comparisons.  A node set is compared by the texts of its nodes, to a truth value by whether it
has any. -/
def compare (f : Forest) (op : BinaryOp) (a b : Value) : Bool :=
  match a, b with
  | nodes _, truth _ => scalarCompare f op (truth a.asTruth) b
  | truth _, nodes _ => scalarCompare f op a (truth b.asTruth)
  | nodes rs, nodes ss =>
    rs.any fun r => ss.any fun s =>
      scalarCompare f op (text (f.stringValue r)) (text (f.stringValue s))
  | nodes rs, _ => rs.any fun r => scalarCompare f op (text (f.stringValue r)) b
  | _, nodes ss => ss.any fun s => scalarCompare f op a (text (f.stringValue s))
  | _, _ => scalarCompare f op a b

theorem compare_nodes_text (f : Forest) (rs : List Ref) (s : String) :
    compare f .eq (nodes rs) (text s) = rs.any fun r => f.stringValue r == s := rfl

end Value

end XmlPaths.XPath

import XmlPaths.Text.Reading
import XmlPaths.XPath.Value

/-!
# The functions of expressions

* `Focus`      the node that an expression is evaluated for, with its position among others;
* `apply`      the value of a function for the values of its arguments.
-/

namespace XmlPaths.XPath

/-- a node, its position among the nodes that a predicate is tested for, and their number -/
structure Focus where
  node : Ref
  position : Nat
  size : Nat

def normalizeSpace (cs : List Char) : List Char :=
  let words := cs.splitBy fun a b => isMarkupBlank a == isMarkupBlank b
  [' '].intercalate (words.filter fun w => !w.any isMarkupBlank)

/-- each character of `source` replaced by the one at its place in `target`, or dropped -/
def translate (source target cs : List Char) : List Char :=
  cs.filterMap fun c =>
    match source.idxOf? c with
    | some i => target[i]?
    | none => some c

/-- the characters at the positions from one number on, as many as another one says -/
def substring (cs : List Char) (start : Number) (length : Option Number) : List Char :=
  let first := start.roundHalfUp
  let selected (i : Nat) : Bool :=
    first.le (.ofNat i) &&
      match length with
      | some l => (Number.ofNat i).lt (first.add l.roundHalfUp)
      | none => true
  (cs.zipIdx 1).filterMap fun (c, i) => if selected i then some c else none

def lowered (cs : List Char) : List Char := cs.map Char.toLower

/-- whether the language that applies to a node is the given one or a dialect of it -/
def inLanguage (f : Forest) (r : Ref) (language : String) : Bool :=
  let declared := (f.axis .ancestorOrSelf r).findSome? fun a =>
    match a with
    | .node x => ((f.node? x).bind Node.element?).bind (·.attribute? ⟨some xmlSpace, "lang"⟩)
    | _ => none
  match declared with
  | some d =>
    let d := lowered d.toList
    let l := lowered language.toList
    d == l || (l ++ ['-']).isPrefixOf d
  | none => false

def apply (f : Forest) (focus : Focus) (name : String) (args : List Value) :
    Except EvalError Value :=
  let textOr (args : List Value) (k : String → Value) : Except EvalError Value :=
    match args with
    | [] => .ok (k (f.stringValue focus.node))
    | [a] => .ok (k (a.asText f))
    | _ => .error (.wrongArguments name)
  let nameOr (args : List Value) (k : Name → String) : Except EvalError Value :=
    match args with
    | [] => .ok (.text ((f.nameOf? focus.node).elim "" k))
    | [.nodes (r :: _)] => .ok (.text ((f.nameOf? r).elim "" k))
    | [.nodes []] => .ok (.text "")
    | _ => .error (.wrongArguments name)
  let chars (v : Value) : List Char := (v.asText f).toList
  match name, args with
  | "last", [] => .ok (.number (.ofNat focus.size))
  | "position", [] => .ok (.number (.ofNat focus.position))
  | "count", [.nodes rs] => .ok (.number (.ofNat rs.length))
  | "id", [_] => .ok (.nodes [])
  | "local-name", args => nameOr args Name.localName
  | "namespace-uri", args => nameOr args fun n => n.space.getD ""
  | "name", args => nameOr args Name.localName
  | "string", args => textOr args .text
  | "concat", a :: b :: rest => .ok (.text (String.join ((a :: b :: rest).map (·.asText f))))
  | "starts-with", [a, b] => .ok (.truth ((chars b).isPrefixOf (chars a)))
  | "contains", [a, b] => .ok (.truth (splitOn? (chars b) (chars a)).isSome)
  | "substring-before", [a, b] =>
    .ok (.text (String.ofList ((splitOn? (chars b) (chars a)).elim [] Prod.fst)))
  | "substring-after", [a, b] =>
    .ok (.text (String.ofList ((splitOn? (chars b) (chars a)).elim [] Prod.snd)))
  | "substring", [a, s] => .ok (.text (String.ofList (substring (chars a) (s.asNumber f) none)))
  | "substring", [a, s, l] =>
    .ok (.text (String.ofList (substring (chars a) (s.asNumber f) (some (l.asNumber f)))))
  | "string-length", args => textOr args fun s => .number (.ofNat s.length)
  | "normalize-space", args =>
    textOr args fun s => .text (String.ofList (normalizeSpace s.toList))
  | "translate", [a, s, t] =>
    .ok (.text (String.ofList (translate (chars s) (chars t) (chars a))))
  | "boolean", [a] => .ok (.truth a.asTruth)
  | "not", [a] => .ok (.truth (!a.asTruth))
  | "true", [] => .ok (.truth true)
  | "false", [] => .ok (.truth false)
  | "lang", [a] => .ok (.truth (inLanguage f focus.node (a.asText f)))
  | "number", [] => .ok (.number (.ofText (f.stringValue focus.node)))
  | "number", [a] => .ok (.number (a.asNumber f))
  | "sum", [.nodes rs] =>
    .ok (.number (rs.foldl (fun n r => n.add (.ofText (f.stringValue r))) (.ofNat 0)))
  | "floor", [a] => .ok (.number (a.asNumber f).floor)
  | "ceiling", [a] => .ok (.number (a.asNumber f).ceiling)
  | "round", [a] => .ok (.number (a.asNumber f).roundHalfUp)
  | _, _ => .error (if known.contains name then .wrongArguments name else .unknownFunction name)
where
  known : List String :=
    ["last", "position", "count", "id", "concat", "starts-with", "contains", "substring-before",
     "substring-after", "substring", "translate", "boolean", "not", "true", "false", "lang",
     "number", "sum", "floor", "ceiling", "round"]

end XmlPaths.XPath

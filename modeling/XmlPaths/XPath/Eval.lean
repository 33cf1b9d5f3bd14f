import XmlPaths.XPath.Function

/-!
# Evaluation

* `Scope`     the documents and the namespaces of the prefixes;
* `select`    the nodes of a list that a test accepts, each with its position;
* `eval`      the value of an expression for a node in focus.

A step is evaluated for each node of its source, so that positions count along the axis of one
node; the nodes that all of them reach are put in document order.  Predicates are not looked at
where there is no node to test.
-/

namespace XmlPaths.XPath

structure Scope where
  forest : Forest
  namespaces : List (String × String)

/-- the namespace of a prefix; the prefix `xml` can't be given another one -/
def Scope.space? (s : Scope) (p : String) : Option String :=
  if p = "xml" then some xmlSpace else s.namespaces.lookup p

def Scope.spaceOf (s : Scope) : Option String → Except EvalError (Option String)
  | none => .ok none
  | some p =>
    match s.space? p with
    | some uri => .ok (some uri)
    | none => .error (.undefinedPrefix p)

/-- the prefix of a test, of which the namespace is needed before any node is tested -/
def NodeTest.nsPrefix? : NodeTest → Option String
  | .all p => p
  | .named p _ => p
  | _ => none

/-- whether a node on an axis is of the kind that name tests select there -/
def isPrincipal (f : Forest) (a : Axis) : Ref → Bool
  | .attribute _ _ => a == .attribute
  | .node x => a != .attribute && f.isElement x
  | _ => false

/-- whether a node on an axis meets a test, of which the prefix stands for `space` -/
def accepts (f : Forest) (a : Axis) (space : Option String) (t : NodeTest) (r : Ref) : Bool :=
  match t with
  | .all none => isPrincipal f a r
  | .all (some _) => isPrincipal f a r && (f.nameOf? r).any (·.space == space)
  | .named _ l => isPrincipal f a r && f.nameOf? r == some ⟨space, l⟩
  | .anyNode => true
  | .text =>
    match r with
    | .text _ => true
    | .tail _ => true
    | _ => false
  | .comment =>
    match r with
    | .node x =>
      match f.node? x with
      | some (.leaf _ (.comment _) _) => true
      | _ => false
    | _ => false
  | .instruction target =>
    match r with
    | .node x =>
      match f.node? x with
      | some (.leaf _ (.instruction t _) _) => target.all (· == t)
      | _ => false
    | _ => false

/-- the nodes that a test accepts; `i` is the position of the first one -/
def select (test : Ref → Nat → Except EvalError Bool) (i : Nat) :
    List Ref → Except EvalError (List Ref)
  | [] => .ok []
  | r :: rs =>
    match test r i with
    | .error e => .error e
    | .ok b =>
      match select test (i + 1) rs with
      | .error e => .error e
      | .ok kept => .ok (if b then r :: kept else kept)

def collect (find : Ref → Except EvalError (List Ref)) : List Ref → Except EvalError (List Ref)
  | [] => .ok []
  | r :: rs =>
    match find r with
    | .error e => .error e
    | .ok found =>
      match collect find rs with
      | .error e => .error e
      | .ok more => .ok (found ++ more)

/-- whether a predicate with a value accepts the node at a position: a number is a position -/
def Value.admits (position : Nat) : Value → Bool
  | .number n => n.eq (.ofNat position)
  | v => v.asTruth

def arithmetic (op : BinaryOp) (a b : Number) : Number :=
  match op with
  | .add => a.add b
  | .sub => a.sub b
  | .mul => a.mul b
  | .div => a.div b
  | .mod => a.mod b
  | _ => .nan

def combine (f : Forest) (op : BinaryOp) (a b : Value) : Except EvalError Value :=
  match op with
  | .union =>
    match a, b with
    | .nodes rs, .nodes ss => .ok (.nodes (f.inOrder (rs ++ ss)))
    | _, _ => .error .noNodeSet
  | .eq => .ok (.truth (Value.compare f .eq a b))
  | .ne => .ok (.truth (Value.compare f .ne a b))
  | .lt => .ok (.truth (Value.compare f .lt a b))
  | .le => .ok (.truth (Value.compare f .le a b))
  | .gt => .ok (.truth (Value.compare f .gt a b))
  | .ge => .ok (.truth (Value.compare f .ge a b))
  | .or => .ok (.truth (a.asTruth || b.asTruth))
  | .and => .ok (.truth (a.asTruth && b.asTruth))
  | op => .ok (.number (arithmetic op (a.asNumber f) (b.asNumber f)))

/-- whether a truth value of the left operand settles the value of the operator -/
def BinaryOp.settledBy : BinaryOp → Bool → Bool
  | .or, true => true
  | .and, false => true
  | _, _ => false

mutual

def eval (s : Scope) (focus : Focus) : Expr → Except EvalError Value
  | .context => .ok (.nodes [focus.node])
  | .root =>
    match (s.forest.axis .ancestorOrSelf focus.node).getLast? with
    | some (.document d) => .ok (.nodes [.document d])
    | some r =>
      match (Forest.owner? r).bind s.forest.tree? with
      | some t => .ok (.nodes [.document t.document])
      | none => .ok (.nodes [])
    | none => .ok (.nodes [])
  | .step source a t ps =>
    match eval s focus source with
    | .error e => .error e
    | .ok (.nodes rs) =>
      match s.spaceOf t.nsPrefix? with
      | .error e => .error e
      | .ok space =>
        match collect (fun r =>
            evalPredicates s ps ((s.forest.axis a r).filter (accepts s.forest a space t))) rs with
        | .error e => .error e
        | .ok found => .ok (.nodes (s.forest.inOrder found))
    | .ok _ => .error .noNodeSet
  | .filter base p =>
    match eval s focus base with
    | .error e => .error e
    | .ok (.nodes rs) =>
      match select (fun r i =>
          match eval s ⟨r, i, rs.length⟩ p with
          | .error e => .error e
          | .ok v => .ok (v.admits i)) 1 rs with
      | .error e => .error e
      | .ok kept => .ok (.nodes kept)
    | .ok _ => .error .noNodeSet
  | .literal t => .ok (.text t)
  | .number n => .ok (.number n)
  | .variable x => .error (.undefinedVariable x)
  | .call p name args =>
    match evalAll s focus args with
    | .error e => .error e
    | .ok vs =>
      match p with
      | some p => .error (.undefinedPrefix p)
      | none => apply s.forest focus name vs
  | .binary op a b =>
    match eval s focus a with
    | .error e => .error e
    | .ok va =>
      if op.settledBy va.asTruth then .ok (.truth va.asTruth)
      else
        match eval s focus b with
        | .error e => .error e
        | .ok vb => combine s.forest op va vb
  | .negate a =>
    match eval s focus a with
    | .error e => .error e
    | .ok v => .ok (.number (v.asNumber s.forest).neg)

/-- the nodes that meet all predicates, of which each numbers the nodes that the former ones left -/
def evalPredicates (s : Scope) : List Expr → List Ref → Except EvalError (List Ref)
  | [], rs => .ok rs
  | p :: ps, rs =>
    match select (fun r i =>
        match eval s ⟨r, i, rs.length⟩ p with
        | .error e => .error e
        | .ok v => .ok (v.admits i)) 1 rs with
    | .error e => .error e
    | .ok kept => evalPredicates s ps kept

def evalAll (s : Scope) (focus : Focus) : List Expr → Except EvalError (List Value)
  | [] => .ok []
  | e :: es =>
    match eval s focus e with
    | .error err => .error err
    | .ok v =>
      match evalAll s focus es with
      | .error err => .error err
      | .ok vs => .ok (v :: vs)

end

end XmlPaths.XPath

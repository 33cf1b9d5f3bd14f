import XmlPaths.Text.Blank
import XmlPaths.Text.Literal
import XmlPaths.Tree.Name
import XmlPaths.XPath.Syntax

/-!
# Reading expressions

A reader takes an expression from the front of a text.  There are no tokens: an operator is looked
for behind each operand, hence `and` needs no blank behind it.  Blanks may stand between all parts
but those of a prefixed name.

* `Reader`         what can be taken from the front of a text;
* `orExpr`, ...    one reader per level of precedence; each gets the reader for what stands in
                   brackets and parentheses;
* `expressionAt`   expressions with brackets nested up to a depth;
* `parse?`         the expression that a text spells.
-/

namespace XmlPaths.XPath

/-- takes something from the front of a text and leaves the rest of it -/
abbrev Reader (α : Type) := List Char → Option (α × List Char)

/-! ## names -/

def isNameStart (c : Char) : Bool := isNcNameStart c && c != oghamSpace

def isNameChar (c : Char) : Bool := isNcNameChar c && c != oghamSpace

def takeNcName? : Reader (List Char)
  | [] => none
  | c :: cs =>
    if isNameStart c then some (c :: cs.takeWhile isNameChar, cs.dropWhile isNameChar) else none

/-! ## location paths -/

/-- a node type test, of which the name and the opening parenthesis have been read -/
def nodeTypeTest? (name : List Char) (cs : List Char) : Option (NodeTest × List Char) :=
  let close (t : NodeTest) (cs : List Char) : Option (NodeTest × List Char) :=
    match skipSpace cs with
    | ')' :: r => some (t, r)
    | _ => none
  if name = "comment".toList then close .comment cs
  else if name = "node".toList then close .anyNode cs
  else if name = "text".toList then close .text cs
  else if name = "processing-instruction".toList then
    match skipSpace cs with
    | ')' :: r => some (.instruction none, r)
    | r =>
      match takeLiteral? r with
      | some (t, r') => close (.instruction (some (String.ofList t))) r'
      | none => none
  else none

/-- the rest of a node test of which the first name has been read -/
def namedTest? (name : List Char) (cs : List Char) : Option (NodeTest × List Char) :=
  match skipSpace cs with
  | '(' :: r => nodeTypeTest? name r
  | _ =>
    match cs with
    | ':' :: '*' :: r => some (.all (some (String.ofList name)), r)
    | ':' :: r =>
      match takeNcName? r with
      | some (l, r') => some (.named (some (String.ofList name)) (String.ofList l), r')
      | none => none
    | _ => some (.named none (String.ofList name), cs)

def nodeTest? (cs : List Char) : Option (NodeTest × List Char) :=
  match skipSpace cs with
  | '*' :: r => some (.all none, r)
  | r =>
    match takeNcName? r with
    | some (n, r') => namedTest? n r'
    | none => none

def axisAndTest? (cs : List Char) : Option ((Axis × NodeTest) × List Char) :=
  let on (a : Axis) (t : Option (NodeTest × List Char)) := t.map fun (t, r) => ((a, t), r)
  match cs with
  | '@' :: r => on .attribute (nodeTest? r)
  | _ =>
    match takeNcName? cs with
    | none => on .child (nodeTest? cs)
    | some (n, r) =>
      match Axis.ofName? n, skipSpace r with
      | some a, ':' :: ':' :: r' => on a (nodeTest? r')
      | _, _ => on .child (namedTest? n r)

def predicates? (expr : Reader Expr) : Nat → Reader (List Expr)
  | 0, cs => some ([], cs)
  | n + 1, cs =>
    match skipSpace cs with
    | '[' :: r =>
      match expr r with
      | none => none
      | some (e, r') =>
        match skipSpace r' with
        | ']' :: r'' => (predicates? expr n r'').map fun (es, rest) => (e :: es, rest)
        | _ => none
    | _ => some ([], cs)

def step? (expr : Reader Expr) (source : Expr) : Reader Expr := fun cs =>
  match skipSpace cs with
  | '.' :: '.' :: r => some (.step source .parent .anyNode [], r)
  | '.' :: r => some (source, r)
  | r =>
    match axisAndTest? r with
    | none => none
    | some ((a, t), r') =>
      (predicates? expr r'.length r').map fun (ps, rest) => (.step source a t ps, rest)

def moreSteps? (expr : Reader Expr) : Nat → Expr → Reader Expr
  | 0, e, cs => some (e, cs)
  | n + 1, e, cs =>
    match skipSpace cs with
    | '/' :: '/' :: r =>
      match step? expr e.descendants r with
      | some (e', r') => moreSteps? expr n e' r'
      | none => none
    | '/' :: r =>
      match step? expr e r with
      | some (e', r') => moreSteps? expr n e' r'
      | none => none
    | _ => some (e, cs)

def relativePath? (expr : Reader Expr) (source : Expr) : Reader Expr := fun cs =>
  let (source, cs) :=
    match skipSpace cs with
    | '/' :: '/' :: r => (source.descendants, r)
    | '/' :: r => (source, r)
    | r => (source, r)
  match step? expr source cs with
  | some (e, r) => moreSteps? expr r.length e r
  | none => none

/-- whether a step is looked for at a character behind a leading slash -/
def startsStep (c : Char) : Bool :=
  c.isAlpha || c == '_' || c == '.' || c == '@' || c == '*'

/-- a path that begins with a slash, of which at most `n` are passed over -/
def absolutePath? (expr : Reader Expr) : Nat → Expr → Reader Expr
  | 0, e, cs => some (e, cs)
  | n + 1, e, cs =>
    match skipSpace cs with
    | '/' :: '/' :: r =>
      match relativePath? expr e.descendants r with
      | some (e', r') => absolutePath? expr n e' r'
      | none => none
    | '/' :: r =>
      if (skipSpace r).head?.any startsStep then
        match relativePath? expr e r with
        | some (e', r') => absolutePath? expr n e' r'
        | none => none
      else absolutePath? expr n e r
    | _ => some (e, cs)

def locationPath? (expr : Reader Expr) : Reader Expr := fun cs =>
  match skipSpace cs with
  | '/' :: r => absolutePath? expr (r.length + 1) .root ('/' :: r)
  | r => relativePath? expr .context r

/-! ## primary expressions -/

/-- the arguments of a call behind the opening parenthesis, at most `n`; the end of the text
closes the call where an argument could stand -/
def arguments? (expr : Reader Expr) : Nat → Reader (List Expr)
  | 0, _ => none
  | n + 1, cs =>
    match skipSpace cs with
    | [] => some ([], [])
    | r =>
      match expr r with
      | none => none
      | some (e, r') =>
        match skipSpace r' with
        | ')' :: rest => some ([e], rest)
        | ',' :: rest => (arguments? expr n rest).map fun (es, rest) => (e :: es, rest)
        | _ => none

def call? (expr : Reader Expr) : Reader Expr := fun cs =>
  let open? (p : Option String) (name r : List Char) : Option (Expr × List Char) :=
    match skipSpace r with
    | '(' :: r' =>
      match skipSpace r' with
      | ')' :: rest => some (.call p (String.ofList name) [], rest)
      | r'' =>
        (arguments? expr (r''.length + 1) r'').map fun (es, rest) =>
          (.call p (String.ofList name) es, rest)
    | _ => none
  match takeNcName? cs with
  | none => none
  | some (n, ':' :: r) =>
    match takeNcName? r with
    | some (l, r') => open? (some (String.ofList n)) l r'
    | none => none
  | some (n, r) => open? none n r

def primary? (expr : Reader Expr) : Reader Expr := fun cs =>
  match cs with
  | '$' :: r =>
    match takeNcName? r with
    | none => none
    | some (n, ':' :: r') =>
      (takeNcName? r').map fun (l, rest) => (.variable (String.ofList (n ++ ':' :: l)), rest)
    | some (n, r') => some (.variable (String.ofList n), r')
  | '(' :: r =>
    match expr r with
    | some (e, r') =>
      match skipSpace r' with
      | ')' :: rest => some (e, rest)
      | _ => none
    | none => none
  | '\'' :: _ => (takeLiteral? cs).map fun (t, r) => (.literal (String.ofList t), r)
  | '"' :: _ => (takeLiteral? cs).map fun (t, r) => (.literal (String.ofList t), r)
  | c :: _ =>
    if c.isDigit || c == '.' then (Number.takeNumber? cs).map fun (n, r) => (.number n, r)
    else call? expr cs
  | [] => none

def isNodeType (name : List Char) : Bool :=
  name == "comment".toList || name == "node".toList || name == "text".toList ||
    name == "processing-instruction".toList

/-- Whether a primary expression, and not a location path, begins at a text without leading
blanks. -/
def startsPrimary : List Char → Bool
  | [] => false
  | '.' :: c :: _ => c.isDigit
  | c :: cs =>
    if c == '$' || c == '(' || c == '\'' || c == '"' || c.isDigit then true
    else if isNameStart c then
      let name := c :: cs.takeWhile fun d => isNameChar d || d == ':'
      let rest := cs.dropWhile fun d => isNameChar d || d == ':'
      ['('].isPrefixOf (skipSpace rest) && !isNodeType name && !hasAxis name
    else false
where
  hasAxis : List Char → Bool
    | ':' :: ':' :: _ => true
    | _ :: cs => hasAxis cs
    | [] => false

/-- a primary expression with predicates and further steps, or a location path -/
def pathExpr? (expr : Reader Expr) : Reader Expr := fun cs =>
  let cs := skipSpace cs
  if startsPrimary cs then
    match primary? expr cs with
    | none => none
    | some (e, r) =>
      match predicates? expr r.length r with
      | none => none
      | some (ps, r') =>
        let e' := ps.foldl .filter e
        match skipSpace r' with
        | '/' :: '/' :: rest => relativePath? expr e'.descendants rest
        | '/' :: rest => relativePath? expr e' ('/' :: rest)
        | _ => some (e', r')
  else locationPath? expr cs

/-! ## operators -/

abbrev Operator := List Char → Option (BinaryOp × List Char)

/-- further operands of operators of one precedence, at most `n` of them -/
def chain? (operand : Reader Expr) (operator : Operator) : Nat → Expr → Reader Expr
  | 0, e, cs => some (e, cs)
  | n + 1, e, cs =>
    match operator (skipSpace cs) with
    | none => some (e, cs)
    | some (op, r) =>
      match operand r with
      | some (e', r') => chain? operand operator n (.binary op e e') r'
      | none => none

/-- operands with operators of one precedence between them, which group to the left -/
def leftAssoc (operand : Reader Expr) (operator : Operator) : Reader Expr := fun cs =>
  match operand cs with
  | some (e, r) => chain? operand operator r.length e r
  | none => none

def unionOp : Operator
  | '|' :: r => some (.union, r)
  | _ => none

def multiplicativeOp : Operator
  | '*' :: r => some (.mul, r)
  | 'd' :: 'i' :: 'v' :: r => some (.div, r)
  | 'm' :: 'o' :: 'd' :: r => some (.mod, r)
  | _ => none

def additiveOp : Operator
  | '+' :: r => some (.add, r)
  | '-' :: r => some (.sub, r)
  | _ => none

def relationalOp : Operator
  | '<' :: '=' :: r => some (.le, r)
  | '<' :: r => some (.lt, r)
  | '>' :: '=' :: r => some (.ge, r)
  | '>' :: r => some (.gt, r)
  | _ => none

def equalityOp : Operator
  | '=' :: r => some (.eq, r)
  | '!' :: '=' :: r => some (.ne, r)
  | _ => none

def andOp : Operator
  | 'a' :: 'n' :: 'd' :: r => some (.and, r)
  | _ => none

def orOp : Operator
  | 'o' :: 'r' :: r => some (.or, r)
  | _ => none

def unionExpr (expr : Reader Expr) : Reader Expr := leftAssoc (pathExpr? expr) unionOp

/-- signs in front of an operand, at most `n` of them -/
def signed? (operand : Reader Expr) : Nat → Reader Expr
  | 0, cs => operand cs
  | n + 1, cs =>
    match skipSpace cs with
    | '-' :: r => (signed? operand n r).map fun (e, rest) => (.negate e, rest)
    | _ => operand cs

def unaryExpr (expr : Reader Expr) : Reader Expr := fun cs => signed? (unionExpr expr) cs.length cs

def multiplicativeExpr (expr : Reader Expr) : Reader Expr :=
  leftAssoc (unaryExpr expr) multiplicativeOp

def additiveExpr (expr : Reader Expr) : Reader Expr :=
  leftAssoc (multiplicativeExpr expr) additiveOp

def relationalExpr (expr : Reader Expr) : Reader Expr :=
  leftAssoc (additiveExpr expr) relationalOp

def equalityExpr (expr : Reader Expr) : Reader Expr := leftAssoc (relationalExpr expr) equalityOp

def andExpr (expr : Reader Expr) : Reader Expr := leftAssoc (equalityExpr expr) andOp

def orExpr (expr : Reader Expr) : Reader Expr := leftAssoc (andExpr expr) orOp

/-- an expression in which brackets and parentheses are nested less than `depth` times -/
def expressionAt : Nat → Reader Expr
  | 0 => fun _ => none
  | depth + 1 => orExpr (expressionAt depth)

/-- The expression that a whole text spells.  Brackets can't be nested more often than there are
characters. -/
def parseChars? (cs : List Char) : Option Expr :=
  match expressionAt (cs.length + 1) cs with
  | some (e, r) => if (skipSpace r).isEmpty then some e else none
  | none => none

def parse? (s : String) : Option Expr := parseChars? s.toList

end XmlPaths.XPath

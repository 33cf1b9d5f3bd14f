import XmlPaths.Markup.Declaration
import XmlPaths.Tree.Name

/-!
# Tokens of markup

* `Token`          tags, comments, instructions, and the texts between them;
* `Border`         what stands behind a text;
* `takeToken?`     the token at the front of a text;
* `Run.pieces`     the pieces in which a text between two tokens is taken in.
-/

namespace XmlPaths.Markup

/-! ## names and values -/

def isRawNameStart (c : Char) : Bool := isNcNameStart c || c == ':'

def isRawNameChar (c : Char) : Bool := isNcNameChar c || c == ':'

def takeName? : List Char → Option (List Char × List Char)
  | [] => none
  | c :: cs =>
    if isRawNameStart c then some (c :: cs.takeWhile isRawNameChar, cs.dropWhile isRawNameChar)
    else none

def unifyLineEnds : List Char → List Char
  | [] => []
  | '\r' :: '\n' :: cs => '\n' :: unifyLineEnds cs
  | '\r' :: cs => '\n' :: unifyLineEnds cs
  | c :: cs => c :: unifyLineEnds cs

def digitOf? (base : Nat) (c : Char) : Option Nat :=
  let v :=
    if c.isDigit then c.toNat - '0'.toNat
    else if 'a' ≤ c ∧ c ≤ 'f' then c.toNat - 'a'.toNat + 10
    else if 'A' ≤ c ∧ c ≤ 'F' then c.toNat - 'A'.toNat + 10
    else base
  if v < base then some v else none

def numeral? (base : Nat) (cs : List Char) : Option Nat :=
  if cs.isEmpty then none
  else (cs.mapM (digitOf? base)).map fun ds => ds.foldl (fun n d => n * base + d) 0

def codedChar? (n : Nat) : Option Char :=
  if h : n.isValidChar then
    let c := Char.ofNatAux n h
    if isMarkupChar c then some c else none
  else none

def referent? : List Char → Option Char
  | '#' :: 'x' :: cs => (numeral? 16 cs).bind codedChar?
  | '#' :: cs => (numeral? 10 cs).bind codedChar?
  | cs => (known.find? (·.1.toList == cs)).map Prod.snd
where
  known : List (String × Char) :=
    [("lt", '<'), ("gt", '>'), ("amp", '&'), ("apos", '\''), ("quot", '"')]

/-- the character of a reference whose ampersand has been read -/
def takeReference? (cs : List Char) : Option (Char × List Char) :=
  (splitOn? [';'] cs).bind fun (name, rest) => (referent? name).map (·, rest)

/-- A character of an attribute's value: all blanks are spaces, unless they are referred to. -/
def takeValueChar? : List Char → Option (Char × List Char)
  | [] => none
  | '<' :: _ => none
  | '&' :: cs => takeReference? cs
  | '\r' :: '\n' :: cs => some (' ', cs)
  | c :: cs => some (if isMarkupBlank c then ' ' else c, cs)

def takeAttribute? (cs : List Char) : Option ((String × String) × List Char) := do
  let cs ← needSpace? cs
  let (name, cs) ← takeName? cs
  let (raw, cs) ← takeAssigned? cs
  let value ← readAll takeValueChar? raw
  pure ((String.ofList name, String.ofList value), cs)

/-! ## texts between tags -/

/-- what stands behind a text -/
inductive Border where
  | endTag
  | markup
  | lineEnd
  | other
deriving DecidableEq

def borderOf : List Char → Border
  | '<' :: '/' :: _ => .endTag
  | '<' :: _ => .markup
  | '\r' :: _ => .lineEnd
  | _ => .other

structure Piece where
  text : List Char
  border : Border
deriving DecidableEq

/-- the characters that pieces are made of one by one: ASCII without carriage returns -/
def isPlain (c : Char) : Bool := (0x20 ≤ c.toNat && c.toNat ≤ 0x7f) || c == '\t' || c == '\n'

/-- The pieces of a text, of which there are at most `n`.  A piece ends in front of a line end of
two characters, which gives a line feed to the next piece; from the first other character that is
not plain, the rest is one piece. -/
def piecesUpTo (border : Border) : Nat → List Char → List Piece
  | 0, _ => []
  | n + 1, cs =>
    let plain := cs.takeWhile isPlain
    let piece (b : Border) : List Piece := if plain.isEmpty then [] else [⟨plain, b⟩]
    match cs.dropWhile isPlain with
    | [] => piece border
    | '\r' :: '\n' :: rest =>
      piece .lineEnd ++
        if rest.head?.all isPlain then piecesUpTo border n ('\n' :: rest)
        else [⟨unifyLineEnds ('\n' :: rest), border⟩]
    | c :: rest => piece (borderOf (c :: rest)) ++ [⟨unifyLineEnds (c :: rest), border⟩]

structure Run where
  text : List Char
  border : Border
deriving DecidableEq

/-- the pieces in which a text is taken in -/
def Run.pieces (r : Run) : List Piece := piecesUpTo r.border r.text.length r.text

/-! ## tokens -/

inductive Token where
  | startTag (name : String) (attributes : List (String × String)) (closed : Bool)
  | endTag (name : String)
  | run (r : Run)
  | literal (text : List Char)
  | comment (text : String)
  | instruction (target data : String)
deriving DecidableEq

def takeStartTag? (cs : List Char) : Option (Token × List Char) := do
  let (name, cs) ← takeName? cs
  let (attributes, cs) := readMany takeAttribute? cs
  match skipSpace cs with
  | '>' :: rest => pure (.startTag (String.ofList name) attributes false, rest)
  | '/' :: '>' :: rest => pure (.startTag (String.ofList name) attributes true, rest)
  | _ => none

def takeEndTag? (cs : List Char) : Option (Token × List Char) := do
  let (name, cs) ← takeName? cs
  match skipSpace cs with
  | '>' :: rest => pure (.endTag (String.ofList name), rest)
  | _ => none

/-- the rest of a comment, in which no two hyphens stand side by side -/
def takeComment? (cs : List Char) : Option (Token × List Char) :=
  match splitOn? ['-', '-'] cs with
  | some (text, '>' :: rest) => some (.comment (String.ofList (unifyLineEnds text)), rest)
  | _ => none

/-- the rest of a literal section -/
def takeSection? (cs : List Char) : Option (Token × List Char) :=
  (splitOn? [']', ']', '>'] cs).map fun (text, rest) => (.literal (unifyLineEnds text), rest)

/-- the rest of an instruction; its target is not `xml`, and has no colon -/
def takeInstruction? (cs : List Char) : Option (Token × List Char) := do
  let (target, cs) ← takeName? cs
  if target.contains ':' || target.map Char.toLower == ['x', 'm', 'l'] then none
  let (data, rest) ← splitOn? ['?', '>'] cs
  let data ← if data.isEmpty then some [] else needSpace? data
  pure (.instruction (String.ofList target) (String.ofList (unifyLineEnds data)), rest)

def endsRun (c : Char) : Bool := c == '<' || c == '&'

def takeRun? (cs : List Char) : Option (Token × List Char) :=
  let text := cs.takeWhile (!endsRun ·)
  let rest := cs.dropWhile (!endsRun ·)
  if (splitOn? [']', ']', '>'] text).isSome then none
  else some (.run ⟨text, borderOf rest⟩, rest)

def takeToken? : List Char → Option (Token × List Char)
  | [] => none
  | '<' :: '/' :: cs => takeEndTag? cs
  | '<' :: '!' :: cs =>
    match expect? "--" cs, expect? "[CDATA[" cs with
    | some r, _ => takeComment? r
    | none, some r => takeSection? r
    | none, none => none
  | '<' :: '?' :: cs => takeInstruction? cs
  | '<' :: cs => takeStartTag? cs
  | '&' :: cs => (takeReference? cs).map fun (c, rest) => (.literal [c], rest)
  | cs => takeRun? cs

/-- the tokens of a text, in which markup has to admit all characters -/
def tokens? (cs : List Char) : Option (List Token) :=
  if cs.all isMarkupChar then readAll takeToken? cs else none

end XmlPaths.Markup

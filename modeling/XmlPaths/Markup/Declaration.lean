import XmlPaths.Text.Blank
import XmlPaths.Text.Literal
import XmlPaths.Text.Reading

/-!
# The declaration of a document

A document may begin with a declaration of the version, the encoding and whether it stands alone,
in this order.

* `Head`, `Declaration`    what is declared, in its first part and on the whole;
* `readHead?`              the version and the encoding that a document declares;
* `readDeclaration?`       the declaration of a document and what follows it;
* `namesEncoding`          whether a text seems to declare an encoding.
-/

namespace XmlPaths.Markup

/-- what a declaration begins with -/
structure Head where
  version : String
  encoding : Option String
deriving DecidableEq

structure Declaration extends Head where
  standalone : Option Bool
deriving DecidableEq

def expect? (item : String) (cs : List Char) : Option (List Char) :=
  if item.toList.isPrefixOf cs then some (cs.drop item.toList.length) else none

def needSpace? : List Char → Option (List Char)
  | [] => none
  | c :: cs => if isMarkupBlank c then some (skipSpace cs) else none

def takeAssigned? (cs : List Char) : Option (List Char × List Char) :=
  (expect? "=" (skipSpace cs)).bind fun r => takeLiteral? (skipSpace r)

/-- the value that is assigned to the given name, behind blanks -/
def takeSetting? (name : String) (cs : List Char) : Option (List Char × List Char) :=
  ((needSpace? cs).bind (expect? name)).bind takeAssigned?

def isVersion : List Char → Bool
  | '1' :: '.' :: cs => cs.all Char.isDigit
  | _ => false

def isEncodingName : List Char → Bool
  | [] => false
  | c :: cs => c.isAlpha && cs.all fun d => d.isAlphanum || d == '.' || d == '_' || d == '-'

def truth? : List Char → Option Bool
  | ['y', 'e', 's'] => some true
  | ['n', 'o'] => some false
  | _ => none

/-- the name of the encoding, if one is set -/
def takeEncoding (cs : List Char) : Option (List Char) × List Char :=
  match takeSetting? "encoding" cs with
  | some (n, r) => (some n, r)
  | none => (none, cs)

/-- the version and the encoding that a declaration begins with, and what follows them -/
def readHead? (cs : List Char) : Option (Head × List Char) :=
  ((expect? "<?xml" cs).bind (takeSetting? "version")).bind fun (v, r) =>
    let (encoding, rest) := takeEncoding r
    if isVersion v && encoding.all isEncodingName then
      some (⟨String.ofList v, encoding.map String.ofList⟩, rest)
    else none

/-- whether the document stands alone, if that's said, and what follows the declaration -/
def readEnding? (cs : List Char) : Option (Option Bool × List Char) :=
  match takeSetting? "standalone" cs with
  | some (v, r) =>
    (expect? "?>" (skipSpace r)).bind fun rest => (truth? v).map fun alone => (some alone, rest)
  | none => (expect? "?>" (skipSpace cs)).map fun rest => (none, rest)

/-- whether a document begins with a declaration, well-formed or not -/
def opensDeclaration (cs : List Char) : Bool := ((expect? "<?xml" cs).bind needSpace?).isSome

/-- The declaration at the front of a document, if there is one, and what follows it.  None if the
document begins with a declaration that is malformed. -/
def readDeclaration? (cs : List Char) : Option (Option Declaration × List Char) :=
  if opensDeclaration cs then
    (readHead? cs).bind fun (h, r) =>
      (readEnding? r).map fun (alone, rest) => (some ⟨h, alone⟩, rest)
  else some (none, cs)

/-- whether the text begins with an assignment of any value to `encoding`, behind a blank -/
def namesEncodingHere : List Char → Bool
  | [] => false
  | c :: cs =>
    isBlank c &&
      match expect? "encoding" (skipBlanks cs) with
      | none => false
      | some r =>
        match skipBlanks r with
        | '=' :: r' =>
          match skipBlanks r' with
          | q :: v =>
            isQuote q &&
              match v.dropWhile (!isQuote ·) with
              | _ :: _ => true
              | [] => false
          | [] => false
        | _ => false
where
  isQuote (c : Char) : Bool := c == '"' || c == '\''

/-- whether one of the ends of a text names an encoding; it begins before the first `>` -/
def namesEncodingWithin : List Char → Bool
  | [] => false
  | c :: cs => namesEncodingHere (c :: cs) || (c != '>' && namesEncodingWithin cs)

/-- Whether a text begins like a declaration with an encoding, of which the rest may be anything. -/
def namesEncoding (cs : List Char) : Bool :=
  match expect? "<?xml" cs with
  | some (c :: r) => c != '>' && namesEncodingWithin r
  | _ => false

theorem readDeclaration?_nil : readDeclaration? [] = some (none, []) := rfl

end XmlPaths.Markup

import XmlPaths.Path.Lexeme
import XmlPaths.Text.Digit
import XmlPaths.Text.Word

/-!
# Features of the full expression language that paths lack

Where a path can't be read any further, the text is inspected for features that the full
expression language has, so that the complaint can name what is not supported.

* `Feature`            the features, in the order in which they are looked for;
* `Feature.startsAt`   whether a text without leading blanks starts with the feature;
* `Feature.detect?`    the first feature that a text starts with.
-/

namespace XmlPaths

/-- what the full expression language has and paths have not -/
inductive Feature where
  | descendantShortcut
  | explicitAxis
  | abbreviatedStep
  | wildcard
  | callOrNodeTest
  | positionalPredicate
  | disjunctivePredicate
  | union
deriving DecidableEq

namespace Feature

/-- the features, those that are looked for first in front -/
def all : List Feature :=
  [descendantShortcut, explicitAxis, abbreviatedStep, wildcard, callOrNodeTest,
   positionalPredicate, disjunctivePredicate, union]

def description : Feature → String
  | descendantShortcut => "Descendant-or-self shortcuts (`//`)"
  | explicitAxis => "Explicit axes"
  | abbreviatedStep => "Abbreviated self and parent steps"
  | wildcard => "Wildcards"
  | callOrNodeTest => "Function calls and node type tests"
  | positionalPredicate => "Positional predicates"
  | disjunctivePredicate => "Disjunctive predicates"
  | union => "Unions"

def isNameLike (c : Char) : Bool := isWord c || c == '-'

def afterRun? (p : Char → Bool) : List Char → Option (List Char)
  | [] => none
  | c :: cs => if p c then some (cs.dropWhile p) else none

def hasSpacedOr : List Char → Bool
  | a :: 'o' :: 'r' :: b :: rest =>
    (isBlank a && isBlank b) || hasSpacedOr ('o' :: 'r' :: b :: rest)
  | _ :: rest => hasSpacedOr rest
  | [] => false

/-- a colon with a word behind it is skipped, if there is one -/
def skipQualifier : List Char → List Char
  | ':' :: cs => (afterRun? isWord cs).getD (':' :: cs)
  | cs => cs

/-- whether the text, which has no leading blanks, starts with the feature -/
def startsAt : Feature → List Char → Bool
  | descendantShortcut, cs => ['/'].isPrefixOf cs
  | explicitAxis, cs =>
    match afterRun? isNameLike cs with
    | some r => [':', ':'].isPrefixOf (skipBlanks r)
    | none => false
  | abbreviatedStep, cs => ['.'].isPrefixOf cs
  | wildcard, cs =>
    ['*'].isPrefixOf cs ||
      match afterRun? isWord cs with
      | some r => [':', '*'].isPrefixOf r
      | none => false
  | callOrNodeTest, cs =>
    match afterRun? isNameLike cs with
    | some r => ['('].isPrefixOf (skipBlanks (skipQualifier r))
    | none => false
  | positionalPredicate, cs =>
    match cs with
    | '[' :: r =>
      match skipBlanks r with
      | c :: _ => isDecimal c
      | [] => false
    | _ => false
  | disjunctivePredicate, cs =>
    match cs with
    | '[' :: r => hasSpacedOr (r.takeWhile (· != ']'))
    | _ => false
  | union, cs => ['|'].isPrefixOf cs

def detect? (cs : List Char) : Option Feature := all.find? (·.startsAt (skipBlanks cs))

theorem mem_all (f : Feature) : f ∈ all := by cases f <;> decide

end Feature

end XmlPaths

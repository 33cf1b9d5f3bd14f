import XmlPaths.Path.Feature

/-!
# Why an expression is no path

* `Malformed`    what is wrong with an expression that uses no known feature;
* `PathError`    the reasons for which an expression is refused, with the place of the first fault;
* `quoteAt`      the quotation of an expression that a message shows.
-/

namespace XmlPaths

inductive Malformed where
  | missingStep
  | unknownStep
  | attributeNotLast
deriving DecidableEq

def Malformed.message : Malformed → String
  | .missingStep => "Unexpected end of the expression, a location step is missing."
  | .unknownStep => "Unsupported or malformed location step."
  | .attributeNotLast => "An attribute step is only allowed at the end of a path."

inductive PathError where
  | absolute (expression : String)
  | unsupported (expression : String) (position : Nat) (feature : Feature)
  | malformed (expression : String) (position : Nat) (fault : Malformed)
deriving DecidableEq

/-- the part of a text between two bounds, of which a negative one counts from the end -/
def slice (cs : List Char) (start stop : Int) : List Char :=
  let bound (i : Int) : Nat := if i < 0 then (cs.length + i).toNat else i.toNat
  (cs.take (bound stop)).drop (bound start)

def quotationLength : Nat := 16

/-- The quotation of the expression from a position on, in back quotes and with an ellipsis if the
expression goes on behind it.  Nothing is quoted at the end of the expression. -/
def quoteAt (expression : String) (position : Int) : Option String :=
  let cs := expression.toList
  let stop := min (position + quotationLength) cs.length
  let quoted := slice cs position stop
  let more := if stop < cs.length then ['…'] else []
  if (quoted ++ more).isEmpty then none
  else some (String.ofList ('`' :: quoted ++ more ++ ['`']))

/-- the message about a fault at a position of an expression -/
def faultMessage (expression : String) (position : Int) (message : String) : String :=
  match quoteAt expression position with
  | some q => "XPath parsing error at character " ++ toString position ++ " (" ++ q ++ "): " ++
      message
  | none => "XPath parsing error at character " ++ toString position ++ ": " ++ message

def absoluteMessage (expression : String) : String :=
  "Absolute XPath expressions are not supported: " ++ expression

def unsupportedMessage (description : String) : String :=
  description ++ " are not supported. Only child element steps with attribute comparisons and a " ++
    "trailing attribute step can be used to create nodes."

def PathError.message : PathError → String
  | .absolute e => absoluteMessage e
  | .unsupported e p f => faultMessage e p (unsupportedMessage f.description)
  | .malformed e p m => faultMessage e p m.message

def PathError.expression : PathError → String
  | .absolute e => e
  | .unsupported e _ _ => e
  | .malformed e _ _ => e

/-- the place of the fault, for all but absolute expressions -/
def PathError.position? : PathError → Option Nat
  | .absolute _ => none
  | .unsupported _ p _ => some p
  | .malformed _ p _ => some p

end XmlPaths

import XmlPaths.Path.Error
import XmlPaths.Text.Display

/-!
# Reports of failures

What is told about a failure: the kinds of failures it belongs to, and a text.  A report of a
fault in an expression may lack parts that its text needs.

* `Report`         a failure with the particulars its text mentions;
* `Report.kinds`   the kinds it belongs to;
* `Report.text?`   its text, if no needed part is missing.
-/

namespace XmlPaths

/-- the kinds of failures that reports are told apart by -/
inductive FailureKind where
  | badValue
  | badType
  | own
  | pathFault
deriving DecidableEq

inductive Report where
  | plain (message : String)
  | absolutePath (expression : String)
  | pathFault (expression : Option String) (position : Option Int) (message : Option String)
  | unsupported (expression : String) (position : Int) (description : String)
  | unexpectedNode (expression expected found : String)
  | creation (expression message : String)
  | evaluation (message : String)
  | misuse (message : String)
  | loading (source : Scalar)
deriving DecidableEq

namespace Report

/-- the kinds of failures that a report belongs to, in a fixed order -/
def kinds : Report → List FailureKind
  | absolutePath _ => [.badValue, .own]
  | unexpectedNode .. => [.badType, .own]
  | pathFault .. => [.own, .pathFault]
  | unsupported .. => [.own, .pathFault]
  | plain _ => [.own]
  | creation .. => [.own]
  | evaluation _ => [.own]
  | misuse _ => [.own]
  | loading _ => [.own]

def unexpectedNodeMessage (expression expected found : String) : String :=
  "The XPath expression `" ++ expression ++ "` must end in an " ++ expected ++ ", not an " ++
    found ++ "."

def creationMessage (expression message : String) : String := message ++ ": " ++ expression

/-- the text of a report, none if a part of it is missing -/
def text? : Report → Option String
  | plain m => some m
  | absolutePath e => some (absoluteMessage e)
  | pathFault (some e) (some p) (some m) => some (faultMessage e p m)
  | pathFault .. => none
  | unsupported e p d => some (faultMessage e p (unsupportedMessage d))
  | unexpectedNode e x f => some (unexpectedNodeMessage e x f)
  | creation e m => some (creationMessage e m)
  | evaluation m => some m
  | misuse m => some m
  | loading s => some ("Couldn't load " ++ s.display ++ " with these loaders: \x7b\x7d")

theorem text?_isSome_of_parts (e : String) (p : Int) (m : String) :
    (pathFault (some e) (some p) (some m)).text?.isSome := rfl

end Report

end XmlPaths

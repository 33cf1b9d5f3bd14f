import XmlPaths.Path.Printer
import XmlPaths.Report
import XmlPaths.Tree.Name

/-!
# Failures of operations on documents

* `Refusal`          what documents and their parts refuse, and of what kind the reason is;
* `Failure`          why an operation failed;
* `Failure.report?`  what is reported about a failure; refusals come without a text.
-/

namespace XmlPaths

inductive RefusalKind where
  | badValue
  | badType
  | missingKey
  | brokenAssumption
deriving DecidableEq

inductive Refusal where
  | illegalText
  | invalidName
  | invalidNamespace
  | belowItself
  | noContent
  | notATimestamp
  | emptyNamespace
  | noChildren
  | noAttributes
  | besideRoot
  | notAText
  | missingAttribute
  | notAnElement
deriving DecidableEq

def Refusal.kind : Refusal → RefusalKind
  | .illegalText => .badValue
  | .invalidName => .badValue
  | .invalidNamespace => .badValue
  | .belowItself => .badValue
  | .noContent => .badValue
  | .notATimestamp => .badValue
  | .emptyNamespace => .badType
  | .noChildren => .badType
  | .noAttributes => .badType
  | .besideRoot => .badType
  | .notAText => .badType
  | .missingAttribute => .missingKey
  | .notAnElement => .brokenAssumption

inductive Failure where
  | path (e : PathError)
  | endsInAttribute (expression : String)
  | notLocated (expression : String)
  | notEvaluated (expression : String)
  | noNodeSet (expression : String)
  | undefinedPrefix (nsPrefix : String) (step : ChildStep)
  | stillAttached
  | attributeExists (element : Name) (name : String)
  | refused (r : Refusal)
deriving DecidableEq

namespace Failure

def report? : Failure → Option Report
  | path (.absolute e) => some (.absolutePath e)
  | path (.unsupported e p f) => some (.unsupported e p f.description)
  | path (.malformed e p m) => some (.pathFault (some e) (some (p : Int)) (some m.message))
  | endsInAttribute e => some (.unexpectedNode e "element" "attribute")
  | notLocated e => some (.creation e "The nodes can't be located after their creation")
  | notEvaluated e => some (.evaluation ("The evaluation of `" ++ e ++ "` failed"))
  | noNodeSet e =>
    some (.evaluation ("The expression `" ++ e ++ "` doesn't evaluate to a node-set."))
  | undefinedPrefix p s =>
    some (.evaluation ("Undefined namespace prefix `" ++ p ++ "` in the location step `" ++
      s.render ++ "`."))
  | stillAttached =>
    some (.misuse ("An element that shall be inserted must not have a parent. Remove it " ++
      "from its tree or insert a copy."))
  | attributeExists n a =>
    some (.misuse ("The element `" ++ n.universal ++ "` already has an attribute `" ++ a ++
      "`, it can't be created again."))
  | refused _ => none

def message? (e : Failure) : Option String := e.report?.bind Report.text?

/-- Every failure but a refusal is reported with a text. -/
theorem message?_isSome {e : Failure} (h : ∀ r, e ≠ refused r) : e.message?.isSome := by
  cases e with
  | path p => cases p <;> rfl
  | refused r => exact absurd rfl (h r)
  | endsInAttribute | notLocated | notEvaluated | noNodeSet | undefinedPrefix | stillAttached
  | attributeExists => rfl

end Failure

end XmlPaths

import XmlPaths.Build.Attributes
import XmlPaths.Failure
import XmlPaths.Tree.Forest

/-!
# Outcomes of operations

An operation that fails may have changed the documents before.  Its outcome holds what it left,
whether it succeeded or not.

* `Outcome`          the documents, the conflicts that were met, and the result or failure;
* `Outcome.andThen`  goes on with a result; after a failure nothing is done.
-/

namespace XmlPaths

structure Outcome (α : Type) where
  forest : Forest
  conflicts : List Conflict
  result : Except Failure α

namespace Outcome

variable {α β : Type}

/-- a success without any change -/
def done (f : Forest) (a : α) : Outcome α := ⟨f, [], .ok a⟩

/-- a failure without any change -/
def fail (f : Forest) (e : Failure) : Outcome α := ⟨f, [], .error e⟩

/-- goes on with a result in the documents that were left; conflicts add up -/
def andThen (o : Outcome α) (next : Forest → α → Outcome β) : Outcome β :=
  match o.result with
  | .error e => ⟨o.forest, o.conflicts, .error e⟩
  | .ok a =>
    let o' := next o.forest a
    { o' with conflicts := o.conflicts ++ o'.conflicts }

@[simp] theorem andThen_done (f : Forest) (a : α) (next : Forest → α → Outcome β) :
    (done f a).andThen next = next f a := rfl

@[simp] theorem andThen_fail (f : Forest) (e : Failure) (next : Forest → α → Outcome β) :
    (fail f e).andThen next = fail f e := rfl

end Outcome

end XmlPaths

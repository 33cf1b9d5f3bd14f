import XmlPaths.Entries
import XmlPaths.Path.Printer

/-!
# The attributes that a step asks for

A new element gets the attributes that the comparisons of its step name.

* `Derivation`      the attributes so far, in the order of their first mention, with the values
                    that were demanded of them;
* `Derivation.ofComparisons`   the attributes that a list of comparisons asks for;
* `Conflict`        a demand that contradicts an earlier one; the later value is used;
* `Comparison.isMet`   whether attributes meet a comparison.
-/

namespace XmlPaths

/-- the value of a step that contradicts an earlier one of the same attribute -/
structure Conflict where
  step : ChildStep
  name : String
  value : String
deriving DecidableEq

def Conflict.message (c : Conflict) : String :=
  "The location step `" ++ c.step.render ++ "` demands conflicting values for the attribute `" ++
    c.name ++ "`, the value `" ++ c.value ++ "` is used."

/-- the attributes that comparisons ask for, the values that they demand, and the names and values
of the demands that contradict an earlier one -/
structure Derivation where
  attributes : Entries
  demanded : Entries
  conflicts : List (String × String)
deriving DecidableEq

namespace Derivation

def empty : Derivation := ⟨[], [], []⟩

/-- An attribute that only has to be there is empty, unless it has a value already; a demanded
value replaces the one before. -/
def add (d : Derivation) (c : Comparison) : Derivation :=
  match c.value with
  | none =>
    if (d.attributes.value? c.name).isSome then d
    else { d with attributes := d.attributes.put c.name "" }
  | some v =>
    let conflict := (d.demanded.value? c.name).any (· != v)
    { attributes := d.attributes.put c.name v
      demanded := d.demanded.put c.name v
      conflicts := d.conflicts ++ if conflict then [(c.name, v)] else [] }

def ofComparisons (cs : List Comparison) : Derivation := cs.foldl add empty

end Derivation

def ChildStep.conflicts (s : ChildStep) : List Conflict :=
  (Derivation.ofComparisons s.comparisons).conflicts.map fun (n, v) => ⟨s, n, v⟩

def Comparison.isMet (es : Entries) (c : Comparison) : Bool :=
  match c.value with
  | none => (es.value? c.name).isSome
  | some v => es.value? c.name == some v

end XmlPaths

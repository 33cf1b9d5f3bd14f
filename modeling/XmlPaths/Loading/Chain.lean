import XmlPaths.Loading.Source

/-!
# Chains of loaders

Loaders are tried in order until one of them loads the source.

* `Loader`, `Chain`     loaders with their names, in the order in which they are tried;
* `Chain.add`           adds a loader, at the end or in front of the one at a position;
* `Chain.standard`      the loaders for the kinds of sources that are known;
* `Chain.load`          the root that the first able loader loads.

What a registered loader does besides replying is up to it, so a chain is one of loaders in a
monad.  It can't alter the chain that is being walked, though: a chain is a value, and the source is
handed to the loaders that it had at the beginning.
-/

namespace XmlPaths

open Markup (Parser)

/-- What a loader is known by.  Registered ones are told apart by a number. -/
inductive LoaderName where
  | node
  | file
  | buffer
  | text
  | added (number : Nat) (name : String)
deriving DecidableEq

structure Loader (m : Type → Type) (ε : Type) where
  name : LoaderName
  reply : Source ε → Parser → m Reply

abbrev Chain (m : Type → Type) (ε : Type) := List (Loader m ε)

/-- the excuses of loaders, in the order in which they were made -/
abbrev Excuses := List (LoaderName × Excuse)

/-- notes an excuse; another one of the same loader takes the place of the one before -/
def Excuses.note (es : Excuses) (name : LoaderName) (e : Excuse) : Excuses :=
  if name ∈ es.map Prod.fst then es.map fun x => if x.1 = name then (name, e) else x
  else es ++ [(name, e)]

/-- why a source isn't loaded: all loaders had an excuse, or one made something unfit of it -/
inductive LoadFailure where
  | excused (excuses : Excuses)
  | unfit
deriving DecidableEq

namespace Chain

variable {m : Type → Type} {ε : Type}

/-- the place that a position means in a list of the length: a negative one counts from the end,
one beyond an end means that end -/
def placeIn (length : Nat) (position : Int) : Nat :=
  if position < 0 then (length + position).toNat else min position.toNat length

/-- adds a loader in front of the one at a position, at the end without a position -/
def add (c : Chain m ε) (position : Option Int) (l : Loader m ε) : Chain m ε :=
  match position with
  | none => c ++ [l]
  | some p => c.take (placeIn c.length p) ++ l :: c.drop (placeIn c.length p)

/-- adds loaders one after the other, each with its position -/
def addAll (c : Chain m ε) (rs : List (Option Int × Loader m ε)) : Chain m ε :=
  rs.foldl (fun c r => c.add r.1 r.2) c

theorem placeIn_le (length : Nat) (position : Int) : placeIn length position ≤ length := by
  unfold placeIn
  split <;> omega

theorem length_add (c : Chain m ε) (position : Option Int) (l : Loader m ε) :
    (c.add position l).length = c.length + 1 := by
  cases position with
  | none => simp [add]
  | some p =>
    have := placeIn_le c.length p
    simp only [add, List.length_append, List.length_take, List.length_cons, List.length_drop]
    omega

variable [Monad m]

def standard : Chain m ε :=
  [⟨.node, fun s p => pure (s.loadNode p)⟩, ⟨.file, fun s p => pure (s.loadFile p)⟩,
   ⟨.buffer, fun s p => pure (s.loadBuffer p)⟩, ⟨.text, fun s p => pure (s.loadText p)⟩]

/-- the node that the first able loader loads; `excuses` are those of the loaders before -/
def tryAll (s : Source ε) (parser : Parser) (excuses : Excuses) :
    Chain m ε → m (Except LoadFailure Node)
  | [] => pure (.error (.excused excuses))
  | l :: ls => do
    match ← l.reply s parser with
    | .loaded n => pure (.ok n)
    | .excused e => tryAll s parser (excuses.note l.name e) ls
    | .unfit => pure (.error .unfit)

def load (c : Chain m ε) (s : Source ε) (parser : Parser) : m (Except LoadFailure (Option Node)) :=
  match s with
  | .nothing => pure (.ok none)
  | s => do
    let loaded ← tryAll s parser [] c
    return loaded.map some

end Chain

end XmlPaths

/-!
# Preferred items

The items that satisfy a predicate are handed out as soon as they are met.  If there is none in
the whole sequence, all items are handed out when it has ended.

* `Event`          what happens while the items are worked through;
* `preferenceEvents`   all that happens, in order;
* `demand`         what happens until a consumer has got what it asked for.

A consumer that asks for few items only sees the beginning of the events; that is all the
laziness there is.
-/

namespace XmlPaths

/-- an item is taken from the sequence, tested, or handed out -/
inductive Event (α : Type) where
  | pulled (item : α)
  | tested (item : α)
  | handed (item : α)
deriving DecidableEq

variable {α : Type}

/-- The events for the items still to come.  As long as no item satisfied the predicate, `stash`
holds those that were met. -/
def preferenceFrom (p : α → Bool) : Option (List α) → List α → List (Event α)
  | none, [] => []
  | some stash, [] => stash.map .handed
  | stash, x :: xs =>
    .pulled x :: .tested x ::
      if p x then .handed x :: preferenceFrom p none xs
      else preferenceFrom p (stash.map (· ++ [x])) xs

/-- all that happens when the items are worked through to the end -/
def preferenceEvents (p : α → Bool) (xs : List α) : List (Event α) := preferenceFrom p (some []) xs

/-- the events up to the one that hands out the item after `n` others, all if there is none -/
def demand (n : Nat) : List (Event α) → List (Event α)
  | [] => []
  | .handed x :: rest =>
    match n with
    | 0 => [.handed x]
    | n + 1 => .handed x :: demand n rest
  | e :: rest => e :: demand n rest

def handedItems (es : List (Event α)) : List α :=
  es.filterMap fun
    | .handed x => some x
    | _ => none

def testedItems (es : List (Event α)) : List α :=
  es.filterMap fun
    | .tested x => some x
    | _ => none

/-- for each item that was handed out, how many items had been taken; `n` were before -/
def pulledCounts (n : Nat) : List (Event α) → List Nat
  | [] => []
  | .pulled _ :: rest => pulledCounts (n + 1) rest
  | .tested _ :: rest => pulledCounts n rest
  | .handed _ :: rest => n :: pulledCounts n rest

def preferred (p : α → Bool) (xs : List α) : List α := handedItems (preferenceEvents p xs)

theorem preferenceFrom_nil_none (p : α → Bool) : preferenceFrom p none [] = [] := rfl

theorem preferenceFrom_nil_some (p : α → Bool) (stash : List α) :
    preferenceFrom p (some stash) [] = stash.map .handed := rfl

end XmlPaths

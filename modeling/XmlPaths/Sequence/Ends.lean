/-!
# The ends of sequences

* `Supply`         items that are at hand, items that are handed out one by one, or no items at all;
* `Supply.first`   the first item and the items that had to be taken for it;
* `Supply.last`    the last item and the items that had to be taken for it.

Taking an item from a supply that hands them out consumes it; items at hand are only looked at.
-/

namespace XmlPaths

inductive Supply (α : Type) where
  | stored (items : List α)
  | streamed (items : List α)
  | notOrdered

/-- an item, if there is one, and the items that were taken from a stream to get it -/
structure Taken (α : Type) where
  item : Option α
  pulled : List α

namespace Supply

variable {α : Type}

/-- the first item; none is known of a supply without order -/
def first : Supply α → Option (Taken α)
  | stored items => some ⟨items.head?, []⟩
  | streamed items => some ⟨items.head?, items.take 1⟩
  | notOrdered => none

/-- the last item; none is known of a supply without order -/
def last : Supply α → Option (Taken α)
  | stored items => some ⟨items.getLast?, []⟩
  | streamed items => some ⟨items.getLast?, items⟩
  | notOrdered => none

theorem first_stored (items : List α) : (stored items).first = some ⟨items.head?, []⟩ := rfl

theorem last_streamed (items : List α) :
    (streamed items).last = some ⟨items.getLast?, items⟩ := rfl

end Supply

end XmlPaths

/-!
# Ranges of code points

A class of characters is given by the list of its ranges, each by its first and its last code
point.

* `Ranges`          such a list;
* `Ranges.covers`   whether a character belongs to the class.
-/

namespace XmlPaths

/-- first and last code point of each range of a class of characters -/
abbrev Ranges := List (Nat × Nat)

/-- whether a character lies in one of the ranges -/
def Ranges.covers (rs : Ranges) (c : Char) : Bool :=
  rs.any fun r => r.1 ≤ c.toNat && c.toNat ≤ r.2

theorem Ranges.covers_nil (c : Char) : Ranges.covers [] c = false := rfl

theorem Ranges.covers_cons (r : Nat × Nat) (rs : Ranges) (c : Char) :
    Ranges.covers (r :: rs) c = ((decide (r.1 ≤ c.toNat) && decide (c.toNat ≤ r.2)) ||
      Ranges.covers rs c) := rfl

theorem Ranges.covers_append (a b : Ranges) (c : Char) :
    Ranges.covers (a ++ b) c = (Ranges.covers a c || Ranges.covers b c) := by
  simp [Ranges.covers, List.any_append]

end XmlPaths

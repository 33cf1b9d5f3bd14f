/-!
# Entries

Values under names, in the order in which the names were first put.

* `Entries.value?`   the value of a name;
* `Entries.put`      enters a value; the name keeps its place if it is there already.
-/

namespace XmlPaths

/-- names with their values -/
abbrev Entries := List (String × String)

namespace Entries

/-- the value that is entered for a name -/
def value? (es : Entries) (n : String) : Option String := es.lookup n

/-- enters a value; a name that is already there keeps its place -/
def put (es : Entries) (n v : String) : Entries :=
  if es.any (·.1 == n) then es.map fun e => if e.1 = n then (n, v) else e else es ++ [(n, v)]

theorem value?_put_self (es : Entries) (n v : String) : (es.put n v).value? n = some v := by
  unfold put value?
  induction es with
  | nil => simp
  | cons e es ih =>
    obtain ⟨m, w⟩ := e
    by_cases h : m = n
    · subst h; simp
    · have h' : (n == m) = false := by simpa using fun h'' => h h''.symm
      simp only [List.any_cons, beq_iff_eq, h, Bool.or_eq_true, false_or, List.map_cons, if_false,
        List.cons_append] at ih ⊢
      split at ih
      · next hany => simpa [hany, h, List.lookup_cons, h'] using ih
      · next hany => simpa [hany, h, List.lookup_cons, h'] using ih

theorem value?_put_of_ne (es : Entries) {n m : String} (v : String) (h : m ≠ n) :
    (es.put n v).value? m = es.value? m := by
  have hmn : (m == n) = false := by simpa using h
  have hmap : (es.map fun e => if e.1 = n then (n, v) else e).lookup m = es.lookup m := by
    induction es with
    | nil => rfl
    | cons e es ih =>
      obtain ⟨k, w⟩ := e
      by_cases hk : k = n
      · subst hk; simpa [List.lookup_cons, hmn] using ih
      · simp [List.lookup_cons, hk, ih]
  unfold put value?
  split
  · exact hmap
  · simp [List.lookup_append, List.lookup_cons, hmn]

end Entries

end XmlPaths

/-!
# Literals

A literal is a text between two quotes of a kind.  There are no escapes, so that it ends with the
first quote of that kind.

* `takeUntilQuote?`   the text up to a quote, and what follows;
* `takeLiteral?`      the content of a literal at the front of a text, and what follows.
-/

namespace XmlPaths

/-- the text up to a quote, and what follows the quote -/
def takeUntilQuote? (q : Char) (cs : List Char) : Option (List Char × List Char) :=
  match cs.dropWhile (· != q) with
  | [] => none
  | _ :: rest => some (cs.takeWhile (· != q), rest)

/-- the content of a literal at the front of the text, and what follows the literal -/
def takeLiteral? : List Char → Option (List Char × List Char)
  | '\'' :: cs => takeUntilQuote? '\'' cs
  | '"' :: cs => takeUntilQuote? '"' cs
  | _ => none

theorem length_dropWhile_le {α : Type} (p : α → Bool) (l : List α) :
    (l.dropWhile p).length ≤ l.length := by
  induction l with
  | nil => simp
  | cons a l ih => rw [List.dropWhile_cons]; split <;> simp only [List.length_cons] <;> omega

theorem length_lt_of_takeUntilQuote? {q : Char} {cs v r : List Char}
    (h : takeUntilQuote? q cs = some (v, r)) : r.length < cs.length := by
  simp only [takeUntilQuote?] at h
  have hle := length_dropWhile_le (· != q) cs
  split at h
  · simp at h
  · next x rest e =>
    simp only [Option.some.injEq, Prod.mk.injEq] at h
    rw [e, List.length_cons, h.2] at hle
    omega

theorem length_lt_of_takeLiteral? {cs v r : List Char} (h : takeLiteral? cs = some (v, r)) :
    r.length < cs.length := by
  simp only [takeLiteral?] at h
  split at h
  · have := length_lt_of_takeUntilQuote? h; simp only [List.length_cons]; omega
  · have := length_lt_of_takeUntilQuote? h; simp only [List.length_cons]; omega
  · simp at h

/-- A text without the quote is read back from between two quotes. -/
theorem takeUntilQuote?_append {q : Char} {v : List Char} (h : q ∉ v) (r : List Char) :
    takeUntilQuote? q (v ++ q :: r) = some (v, r) := by
  have hv : ∀ c ∈ v, (c != q) = true := fun c hc => by
    have : c ≠ q := fun e => h (e ▸ hc)
    simpa using this
  simp only [takeUntilQuote?, List.dropWhile_append_of_pos hv, List.takeWhile_append_of_pos hv]
  simp

end XmlPaths

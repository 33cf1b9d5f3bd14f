import XmlPaths.Text.Ranges

/-!
# Blanks

Two classes of blanks occur.  Path expressions are read with the blanks of all scripts; markup
and the evaluation of expressions know the four blanks of the markup standard only.

* `isBlank`        white space of any script;
* `isMarkupBlank`  space, tabulator, line feed, carriage return;
* `skipBlanks`, `skipSpace`   what follows the leading blanks of either class;
* `trimBlanks`     the text without blanks at either end.
-/

namespace XmlPaths

/-- the white space of all scripts -/
def blankRanges : Ranges :=
  [(0x9, 0xd), (0x1c, 0x20), (0x85, 0x85), (0xa0, 0xa0), (0x1680, 0x1680), (0x2000, 0x200a),
   (0x2028, 0x2029), (0x202f, 0x202f), (0x205f, 0x205f), (0x3000, 0x3000)]

def isBlank (c : Char) : Bool := blankRanges.covers c

def isMarkupBlank (c : Char) : Bool := c == ' ' || c == '\t' || c == '\n' || c == '\r'

def skipBlanks (cs : List Char) : List Char := cs.dropWhile isBlank

def skipSpace (cs : List Char) : List Char := cs.dropWhile isMarkupBlank

def trimBlanks (cs : List Char) : List Char :=
  (skipBlanks (skipBlanks cs).reverse).reverse

theorem isBlank_of_isMarkupBlank {c : Char} (h : isMarkupBlank c = true) : isBlank c = true := by
  simp only [isMarkupBlank, Bool.or_eq_true, beq_iff_eq] at h
  rcases h with ((rfl | rfl) | rfl) | rfl <;> decide

theorem skipBlanks_nil : skipBlanks [] = [] := rfl

theorem skipBlanks_cons (c : Char) (cs : List Char) :
    skipBlanks (c :: cs) = if isBlank c then skipBlanks cs else c :: cs := by
  simp [skipBlanks, List.dropWhile_cons]

theorem length_skipBlanks_le (cs : List Char) : (skipBlanks cs).length ≤ cs.length := by
  induction cs with
  | nil => simp [skipBlanks]
  | cons c cs ih => rw [skipBlanks_cons]; split <;> simp only [List.length_cons] <;> omega

end XmlPaths

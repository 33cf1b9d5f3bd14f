import XmlPaths.Path.Basic
import XmlPaths.Path.Pattern
import XmlPaths.Text.Blank
import XmlPaths.Text.Literal

/-!
# The lexemes of path expressions

Names, literals and predicate clauses.  A name and a literal end where they must; a clause is
found by its pattern, since one code point (the ogham space mark) is both a blank and a name
character, and a clause is accepted in any way of telling the two apart.

* `Pattern.name`, `Pattern.literal`, `Pattern.comparison`, `Pattern.clause`   the grammar;
* `takeName?`, `takeDemand?`, `takeComparison?`   a lexeme at the front of an input, with what
  follows;
* `comparisonsIn`   the attribute comparisons that occur in a clause, each name as long as possible.
-/

namespace XmlPaths

def nameStartRanges : Ranges :=
  [(0x41, 0x5a), (0x5f, 0x5f), (0x61, 0x7a), (0xc0, 0xd6), (0xd8, 0xf6), (0xf8, 0x2ff),
   (0x370, 0x37d), (0x37f, 0x1fff), (0x200c, 0x200d), (0x2070, 0x218f), (0x2c00, 0x2fef),
   (0x3001, 0xd7ff), (0xf900, 0xfdcf), (0xfdf0, 0xfffd), (0x10000, 0xeffff)]

/-- the other characters of names; dots and hyphens are none of them -/
def nameOnlyRanges : Ranges :=
  [(0x30, 0x39), (0xb7, 0xb7), (0x300, 0x36f), (0x203f, 0x2040)]

def isNameStart (c : Char) : Bool := nameStartRanges.covers c

def isNameChar (c : Char) : Bool := isNameStart c || nameOnlyRanges.covers c

/-! ## the grammar -/

namespace Pattern

def blanks : Pattern := many (one isBlank)

def someBlanks : Pattern := atLeastOnce (one isBlank)

def name : Pattern := seq (one isNameStart) (many (one isNameChar))

def quoted (q : Char) : Pattern := seq (char q) (seq (many (one (· != q))) (char q))

/-- there are no escapes in literals, the delimiter can't occur inside -/
def literal : Pattern := alt (quoted '\'') (quoted '"')

def demand : Pattern := seq blanks (seq (char '=') (seq blanks literal))

def comparison : Pattern := seq (char '@') (seq name (opt demand))

def joint : Pattern := seq someBlanks (seq (word ['a', 'n', 'd']) (seq someBlanks comparison))

def clause : Pattern :=
  seq (char '[') (seq blanks (seq comparison (seq (many joint) (seq blanks (char ']')))))

end Pattern

/-! ## names and demands -/

/-- a name at the front of the input, as long as possible, and what follows -/
def takeName? : List Char → Option (List Char × List Char)
  | [] => none
  | c :: cs =>
    if isNameStart c then some (c :: cs.takeWhile isNameChar, cs.dropWhile isNameChar) else none

def takeDemand? (cs : List Char) : Option (List Char × List Char) :=
  match skipBlanks cs with
  | '=' :: rest => takeLiteral? (skipBlanks rest)
  | _ => none

theorem length_lt_of_takeName? {cs n r : List Char} (h : takeName? cs = some (n, r)) :
    r.length < cs.length := by
  cases cs with
  | nil => simp [takeName?] at h
  | cons c cs =>
    simp only [takeName?] at h
    split at h
    · simp only [Option.some.injEq, Prod.mk.injEq] at h
      have := length_dropWhile_le isNameChar cs
      simp only [List.length_cons, ← h.2]
      omega
    · simp at h

theorem length_lt_of_takeDemand? {cs v r : List Char} (h : takeDemand? cs = some (v, r)) :
    r.length < cs.length := by
  simp only [takeDemand?] at h
  have hle := length_skipBlanks_le cs
  split at h
  · next rest e =>
    have h1 := length_lt_of_takeLiteral? h
    have h2 := length_skipBlanks_le rest
    rw [e, List.length_cons] at hle
    omega
  · simp at h

/-! ## comparisons -/

/-- a comparison at the front of the input, its name as long as possible, and what follows -/
def takeComparison? : List Char → Option (Comparison × List Char)
  | '@' :: cs =>
    match takeName? cs with
    | none => none
    | some (n, r) =>
      match takeDemand? r with
      | some (v, r') => some (⟨String.ofList n, some (String.ofList v)⟩, r')
      | none => some (⟨String.ofList n, none⟩, r)
  | _ => none

theorem length_lt_of_takeComparison? {cs r : List Char} {k : Comparison}
    (h : takeComparison? cs = some (k, r)) : r.length < cs.length := by
  simp only [takeComparison?] at h
  split at h
  · next cs =>
    split at h
    · simp at h
    · next n r' hn =>
      have h1 := length_lt_of_takeName? hn
      split at h
      · next v r'' hd =>
        have h2 := length_lt_of_takeDemand? hd
        simp only [Option.some.injEq, Prod.mk.injEq] at h
        simp only [List.length_cons, ← h.2]; omega
      · simp only [Option.some.injEq, Prod.mk.injEq] at h
        simp only [List.length_cons, ← h.2]; omega
  · simp at h

def comparisonsIn : List Char → List Comparison
  | [] => []
  | c :: cs =>
    match _h : takeComparison? (c :: cs) with
    | some (k, r) => k :: comparisonsIn r
    | none => comparisonsIn cs
termination_by cs => cs.length
decreasing_by
  · exact length_lt_of_takeComparison? _h
  · simp

theorem comparisonsIn_nil : comparisonsIn [] = [] := by rw [comparisonsIn]

end XmlPaths

import XmlPaths.Proofs.Path.Segments
import XmlPaths.XPath.Parser

/-!
# Names and blanks of both languages

Path expressions are written in a part of the full expression language.  The two agree on an
expression if its blanks are those of markup and its names are names without a colon.

* `Alphabet.Known`      alphabets whose blanks and names are those of the full language;
* `Alphabet.Common`     alphabets of path expressions that the full language has in common;
* `XPath.EndsBefore`    what may stand behind a part of an expression, blanks aside;
* `Alphabet.Known.takeNcName?_append`   a name at the front of a text.
-/

namespace XmlPaths

theorem skipSpace_append {u : List Char} (hu : ∀ c ∈ u, isMarkupBlank c = true) (r : List Char) :
    skipSpace (u ++ r) = skipSpace r :=
  List.dropWhile_append_of_pos hu

theorem skipSpace_of_stops {r : List Char} (h : Stops isMarkupBlank r) : skipSpace r = r :=
  dropWhile_of_stops h

theorem isNameChar_of_isMarkupBlank {c : Char} (h : isMarkupBlank c = true) :
    XPath.isNameChar c = false := by
  simp only [isMarkupBlank, Bool.or_eq_true, beq_iff_eq] at h
  rcases h with ((rfl | rfl) | rfl) | rfl <;> decide

/-- The full language knows the blanks and names over the alphabet. -/
structure Alphabet.Known (A : Alphabet) : Prop where
  isMarkupBlank : ∀ {c}, A.blank c = true → isMarkupBlank c = true
  isXPathNameStart : ∀ {c}, A.nameStart c = true → XPath.isNameStart c = true
  isXPathNameChar : ∀ {c}, A.nameChar c = true → XPath.isNameChar c = true

/-- Path expressions over the alphabet, whose blanks and names the full language knows. -/
structure Alphabet.Common (A : Alphabet) : Prop extends A.Clear where
  isMarkupBlank : ∀ {c}, A.blank c = true → isMarkupBlank c = true
  isXPathNameChar : ∀ {c}, A.nameChar c = true → XPath.isNameChar c = true

namespace XPath

/-- The first characters of names are the same, but for the ogham space mark. -/
theorem isNameStart_of_not_isBlank {c : Char} (h : XmlPaths.isNameStart c = true)
    (hb : isBlank c = false) : isNameStart c = true := by
  have hne : c ≠ oghamSpace := by
    rintro rfl
    exact absurd hb (by decide)
  have hstart : isNcNameStart c = true := h
  rw [isNameStart, hstart, Bool.true_and]
  simpa using hne

theorem isNameStart_ne {c d : Char} (h : isNameStart c = true) (hd : isNameStart d = false) :
    c ≠ d := by
  rintro rfl
  rw [h] at hd
  exact absurd hd (by simp)

theorem isMarkupBlank_of_isNameStart {c : Char} (h : isNameStart c = true) :
    isMarkupBlank c = false := by
  rw [Bool.eq_false_iff]
  intro hb
  simp only [isMarkupBlank, Bool.or_eq_true, beq_iff_eq] at hb
  rcases hb with ((rfl | rfl) | rfl) | rfl <;> exact absurd h (by decide)

theorem isDigit_eq_false_of_isNameStart {c : Char} (h : isNameStart c = true) :
    c.isDigit = false := by
  rw [Bool.eq_false_iff]
  intro hd
  rw [isNameStart, Bool.and_eq_true] at h
  have hstart := h.1
  simp only [isNcNameStart, ncNameStartRanges, Ranges.covers, List.any_cons, List.any_nil,
    Bool.or_eq_true, Bool.and_eq_true, decide_eq_true_eq, Bool.or_false] at hstart
  simp only [Char.isDigit, Bool.and_eq_true, decide_eq_true_eq] at hd
  have hle : c.toNat ≤ 57 := UInt32.le_iff_toNat_le.1 hd.2
  omega

theorem isNameChar_of_isNameStart {c : Char} (h : isNameStart c = true) :
    isNameChar c = true := by
  rw [isNameStart, Bool.and_eq_true] at h
  rw [isNameChar, isNcNameChar, h.1, h.2]
  rfl

/-! ## what stands behind a part -/

/-- a character that goes on with a name or with the second part of one -/
def goesOn (c : Char) : Bool := isNameChar c || c == ':'

/-- No name goes on, and behind blanks stands one of the given characters or nothing. -/
structure EndsBefore (allowed z : List Char) : Prop where
  stops : Stops goesOn z
  follows : ∀ c ∈ (skipSpace z).head?, c ∈ allowed

namespace EndsBefore

variable {allowed allowed' z : List Char}

theorem mono (h : EndsBefore allowed z) (hsub : allowed ⊆ allowed') : EndsBefore allowed' z :=
  ⟨h.stops, fun c hc => hsub (h.follows c hc)⟩

theorem stops_isNameChar (h : EndsBefore allowed z) : Stops isNameChar z := by
  intro c hc
  have hgo := h.stops c hc
  rw [goesOn, Bool.or_eq_false_iff] at hgo
  exact hgo.1

theorem exists_cons (h : EndsBefore allowed z) :
    skipSpace z = [] ∨ ∃ c cs, skipSpace z = c :: cs ∧ c ∈ allowed := by
  cases hz : skipSpace z with
  | nil => exact .inl rfl
  | cons c cs => exact .inr ⟨c, cs, rfl, h.follows c (by rw [hz]; rfl)⟩

theorem operator_eq_none (h : EndsBefore allowed z) {op : Operator} (hnil : op [] = none)
    (hcons : ∀ c ∈ allowed, ∀ cs, op (c :: cs) = none) : op (skipSpace z) = none := by
  obtain hz | ⟨c, cs, hz, hc⟩ := h.exists_cons
  · rw [hz, hnil]
  · rw [hz, hcons c hc]

end EndsBefore

theorem endsBefore_blanks {w : List Char} (hw : ∀ c ∈ w, isMarkupBlank c = true) :
    EndsBefore [] w := by
  have hskip : skipSpace w = [] := by
    have h := skipSpace_append hw []
    rwa [List.append_nil] at h
  constructor
  · intro c hc
    have hb := hw c (List.mem_of_mem_head? hc)
    rw [goesOn, isNameChar_of_isMarkupBlank hb, Bool.false_or, beq_eq_false_iff_ne]
    rintro rfl
    exact absurd hb (by decide)
  · rw [hskip]
    exact fun c hc => absurd hc (by simp)

/-- One of the characters follows blanks; without blanks it must not go on with a name. -/
theorem endsBefore_append {allowed u z : List Char} {c : Char}
    (hu : ∀ c ∈ u, isMarkupBlank c = true) (hc : c ∈ allowed) (hb : isMarkupBlank c = false)
    (hgo : u = [] → goesOn c = false) : EndsBefore allowed (u ++ c :: z) := by
  constructor
  · cases u with
    | nil => exact stops_cons.2 (hgo rfl)
    | cons b u =>
      refine stops_cons.2 ((endsBefore_blanks hu).stops b ?_)
      rw [List.head?_cons, Option.mem_some]
  · rw [skipSpace_append hu, skipSpace_of_stops (stops_cons.2 hb)]
    rintro d hd
    obtain rfl : c = d := by simpa using hd
    exact hc

end XPath

/-! ## names -/

namespace Alphabet

variable {A : Alphabet}

theorem Common.known (hA : A.Common) : A.Known where
  isMarkupBlank hc := hA.isMarkupBlank hc
  isXPathNameStart hc := XPath.isNameStart_of_not_isBlank (hA.isNameStart hc) (hA.start_apart hc)
  isXPathNameChar hc := hA.isXPathNameChar hc

namespace Known

variable (hA : A.Known)
include hA

theorem blanks {w : List Char} (hw : A.Blanks w) : ∀ c ∈ w, XmlPaths.isMarkupBlank c = true :=
  fun c hc => hA.isMarkupBlank (hw c hc)

theorem exists_cons_of_isName {n : List Char} (hn : A.IsName n) :
    ∃ c cs, n = c :: cs ∧ XPath.isNameStart c = true ∧ ∀ d ∈ cs, XPath.isNameChar d = true := by
  obtain ⟨c, cs, rfl, hc, hcs⟩ := hn.exists_cons
  exact ⟨c, cs, rfl, hA.isXPathNameStart hc, fun d hd => hA.isXPathNameChar (hcs d hd)⟩

theorem goesOn_of_isName {n : List Char} (hn : A.IsName n) : ∀ c ∈ n, XPath.goesOn c = true := by
  obtain ⟨c, cs, rfl, hc, hcs⟩ := hA.exists_cons_of_isName hn
  intro d hd
  rw [XPath.goesOn, Bool.or_eq_true]
  rcases List.mem_cons.1 hd with rfl | hd
  · exact .inl (XPath.isNameChar_of_isNameStart hc)
  · exact .inl (hcs d hd)

theorem takeNcName?_append {n r : List Char} (hn : A.IsName n) (hr : Stops XPath.isNameChar r) :
    XPath.takeNcName? (n ++ r) = some (n, r) := by
  obtain ⟨c, cs, rfl, hc, hcs⟩ := hA.exists_cons_of_isName hn
  rw [List.cons_append, XPath.takeNcName?, if_pos hc, List.takeWhile_append_of_pos hcs,
    List.dropWhile_append_of_pos hcs, takeWhile_of_stops hr, dropWhile_of_stops hr,
    List.append_nil]

end Known

end Alphabet

end XmlPaths

import XmlPaths.Path.Feature
import XmlPaths.Proofs.Path.Lexing

/-!
# The features that a text begins with

Features are looked for with runs of word characters, whereas names have letters of other ranges.
So a run may end inside of a name; it never goes on behind it.

* `isNameLike_of_isBlank`, `isNameLike_of_isAsciiNameLike`   the characters of runs;
* `exists_afterRun?`            a run that begins in a part of a text ends in it;
* `Unmarked`                    texts that make no feature of a name in front of them;
* `SpacedOr`, `hasSpacedOr_iff` an `or` between blanks;
* `detect?_name`                a name with such a text behind it is no feature;
* `detect?_axis`, `detect?_call`, `detect?_slash`, `detect?_dot`, `detect?_asterisk`,
  `detect?_bar`, `detect?_bracket`, `detect?_position`   texts that begin with one.
-/

namespace XmlPaths

open Alphabet

/-! ## classes of characters -/

theorem Ranges.covers_of_mem {rs : Ranges} {r : Nat × Nat} (hr : r ∈ rs) {c : Char}
    (hle : r.1 ≤ c.toNat) (hle' : c.toNat ≤ r.2) : rs.covers c = true := by
  unfold Ranges.covers
  rw [List.any_eq_true]
  refine ⟨r, hr, ?_⟩
  simp [hle, hle']

theorem Ranges.not_covers_of_disjoint {a b : Ranges}
    (h : ∀ r ∈ a, ∀ s ∈ b, r.2 < s.1 ∨ s.2 < r.1) {c : Char} (hc : a.covers c = true) :
    b.covers c = false := by
  rw [Bool.eq_false_iff]
  intro hc'
  simp only [Ranges.covers, List.any_eq_true, Bool.and_eq_true, decide_eq_true_eq] at hc hc'
  obtain ⟨r, hr, h1, h2⟩ := hc
  obtain ⟨s, hs, h3, h4⟩ := hc'
  rcases h r hr s hs with h | h <;> omega

/-- letters, digits, the low line and the hyphen of ASCII -/
def isAsciiNameLike (c : Char) : Bool := c.isAlphanum || c == '_' || c == '-'

namespace Feature

theorem isWord_of_isBlank {c : Char} (h : isBlank c = true) : isWord c = false := by
  have hdisjoint : ∀ r ∈ blankRanges, ∀ s ∈ wordRanges, r.2 < s.1 ∨ s.2 < r.1 := by
    decide +kernel
  exact Ranges.not_covers_of_disjoint hdisjoint h

theorem isNameLike_of_isBlank {c : Char} (h : isBlank c = true) : isNameLike c = false := by
  have hne : c ≠ '-' := by
    rintro rfl
    exact absurd h (by decide)
  simp [isNameLike, isWord_of_isBlank h, hne]

theorem isWord_of_isAlphanum {c : Char} (h : c.isAlphanum = true) : isWord c = true := by
  obtain ⟨hlow, hhigh⟩ | ⟨hlow, hhigh⟩ | ⟨hlow, hhigh⟩ := toNat_of_isAlphanum h
  · exact Ranges.covers_of_mem (r := (0x41, 0x5a)) (by decide) hlow hhigh
  · exact Ranges.covers_of_mem (r := (0x61, 0x7a)) (by decide) hlow hhigh
  · exact Ranges.covers_of_mem (r := (0x30, 0x39)) (by decide) hlow hhigh

theorem isNameLike_of_isAsciiNameLike {c : Char} (h : isAsciiNameLike c = true) :
    isNameLike c = true := by
  simp only [isAsciiNameLike, Bool.or_eq_true, beq_iff_eq] at h
  rcases h with (h | rfl) | rfl
  · rw [isNameLike, isWord_of_isAlphanum h, Bool.true_or]
  · decide +kernel
  · decide +kernel

theorem isDecimal_of_isDigit {d : Char} (h : d.isDigit = true) : isDecimal d = true := by
  have hbounds : 0x30 ≤ d.toNat ∧ d.toNat ≤ 0x30 + 9 := toNat_of_isDigit h
  rw [isDecimal, digitValue?, Option.isSome_map, List.find?_isSome]
  refine ⟨0x30, by decide, ?_⟩
  simpa using hbounds

theorem isBlank_of_isDigit {d : Char} (h : d.isDigit = true) : isBlank d = false := by
  have hword : isWord d = true := isWord_of_isAlphanum (by rw [Char.isAlphanum, h, Bool.or_true])
  rw [Bool.eq_false_iff]
  intro hb
  rw [isWord_of_isBlank hb] at hword
  exact absurd hword (by simp)

theorem isBlank_of_isNameLike {c : Char} (h : isNameLike c = true) : isBlank c = false := by
  rw [Bool.eq_false_iff]
  intro hb
  exact ne_of_apart h (isNameLike_of_isBlank hb) rfl

theorem stops_isWord {z : List Char} (hz : Stops isNameLike z) : Stops isWord z := by
  intro c hc
  have h := hz c hc
  rw [isNameLike, Bool.or_eq_false_iff] at h
  exact h.1

/-! ## runs -/

theorem afterRun?_of_not {p : Char → Bool} {c : Char} (hc : p c = false) (cs : List Char) :
    afterRun? p (c :: cs) = none := by
  simp [afterRun?, hc]

theorem afterRun?_run {p : Char → Bool} {c : Char} {q z : List Char}
    (hq : ∀ d ∈ c :: q, p d = true) (hz : Stops p z) :
    afterRun? p (c :: (q ++ z)) = some z := by
  have hq' : ∀ d ∈ q, p d = true := fun d hd => hq d (List.mem_cons_of_mem _ hd)
  rw [afterRun?, if_pos (hq c List.mem_cons_self), List.dropWhile_append_of_pos hq',
    dropWhile_of_stops hz]

/-- A run that begins in the first part of a text ends in it, if the second part stops it. -/
theorem exists_afterRun? {p : Char → Bool} {n z y : List Char}
    (h : afterRun? p (n ++ z) = some y) (hz : Stops p z) : ∃ m, m <:+ n ∧ y = m ++ z := by
  cases n with
  | nil =>
    cases z with
    | nil => exact absurd h (by simp [afterRun?])
    | cons c cs =>
      rw [List.nil_append, afterRun?_of_not (stops_cons.1 hz)] at h
      exact absurd h (by simp)
  | cons c n =>
    simp only [List.cons_append, afterRun?] at h
    split at h
    · rw [Option.some.injEq, dropWhile_append_of_stops n hz] at h
      exact ⟨_, (List.dropWhile_suffix p).trans (List.suffix_cons c n), h.symm⟩
    · exact absurd h (by simp)

/-! ## what may stand behind a name -/

/-- A text that makes no feature of a name in front of it: no two colons, no colon and asterisk,
and no parenthesis, also behind a qualifier. -/
structure Unmarked (z : List Char) : Prop where
  axis : [':', ':'].isPrefixOf (skipBlanks z) = false
  wildcard : [':', '*'].isPrefixOf z = false
  call : ['('].isPrefixOf (skipBlanks (skipQualifier z)) = false

theorem skipQualifier_of_head {z : List Char} (h : z.head? ≠ some ':') : skipQualifier z = z := by
  unfold skipQualifier
  split
  · exact absurd rfl h
  · rfl

theorem isPrefixOf_eq_false_of_head {c : Char} {cs z : List Char} (h : z.head? ≠ some c) :
    (c :: cs).isPrefixOf z = false := by
  cases z with
  | nil => rfl
  | cons d z =>
    have hne : c ≠ d := fun e => h (by rw [e]; rfl)
    rw [List.isPrefixOf_cons_cons, beq_eq_false_iff_ne.2 hne, Bool.false_and]

theorem unmarked_of_head {z : List Char} (hcolon : (skipBlanks z).head? ≠ some ':')
    (hparen : (skipBlanks z).head? ≠ some '(') : Unmarked z := by
  have h : z.head? ≠ some ':' := head?_ne_of_skipBlanks (by decide) hcolon
  refine ⟨isPrefixOf_eq_false_of_head hcolon, isPrefixOf_eq_false_of_head h, ?_⟩
  rw [skipQualifier_of_head h]
  exact isPrefixOf_eq_false_of_head hparen

theorem Unmarked.noParen {z : List Char} (h : Unmarked z) : (skipBlanks z).head? ≠ some '(' := by
  intro hz
  obtain ⟨r, hr⟩ := List.head?_eq_some_iff.1 hz
  have hcolon : z.head? ≠ some ':' := by
    refine head?_ne_of_skipBlanks (by decide) ?_
    simp [hr]
  have hcall := h.call
  rw [skipQualifier_of_head hcolon, hr] at hcall
  exact absurd hcall (by simp)

theorem skipBlanks_name_append {m : List Char} (hm : ∀ c ∈ m, isNameChar c = true)
    (z : List Char) : skipBlanks (m ++ z) = skipBlanks z ∨
      ∃ c r, isNameChar c = true ∧ skipBlanks (m ++ z) = c :: r := by
  induction m with
  | nil => exact .inl rfl
  | cons c m ih =>
    rw [List.cons_append, skipBlanks_cons]
    split
    · exact ih fun d hd => hm d (List.mem_cons_of_mem _ hd)
    · exact .inr ⟨c, m ++ z, hm c List.mem_cons_self, rfl⟩

/-- The end of a name may stand in front: it makes no feature either. -/
theorem Unmarked.behind {m z : List Char} (hz : Unmarked z) (hm : ∀ c ∈ m, isNameChar c = true) :
    Unmarked (m ++ z) := by
  cases m with
  | nil => exact hz
  | cons c m =>
    have hcolon : ((c :: m) ++ z).head? ≠ some ':' := by
      intro h
      have hc : c = ':' := by simpa using h
      exact absurd (hm c List.mem_cons_self) (by rw [hc]; decide)
    have hwildcard : [':', '*'].isPrefixOf ((c :: m) ++ z) = false :=
      isPrefixOf_eq_false_of_head hcolon
    obtain h | ⟨d, r, hd, h⟩ := skipBlanks_name_append hm z
    · refine ⟨?_, hwildcard, ?_⟩
      · rw [h]
        exact hz.axis
      · rw [skipQualifier_of_head hcolon, h]
        exact isPrefixOf_eq_false_of_head hz.noParen
    · have hne : ∀ e, isNameChar e = false → (d :: r).head? ≠ some e := by
        intro e he hr
        exact ne_of_apart hd he (by simpa using hr)
      refine ⟨?_, hwildcard, ?_⟩
      · rw [h]
        exact isPrefixOf_eq_false_of_head (hne ':' (by decide))
      · rw [skipQualifier_of_head hcolon, h]
        exact isPrefixOf_eq_false_of_head (hne '(' (by decide))

/-- the second part of a qualified name -/
theorem Unmarked.qualified {n z : List Char} (hn : full.IsName n) (hz : Unmarked z)
    (hstop : Stops isNameLike z) : Unmarked (':' :: (n ++ z)) := by
  obtain ⟨c, cs, rfl, hc, -⟩ := hn.exists_cons
  have hname := isNameChar_of_isName hn
  have hhead : ∀ d, isNameStart d = false → (c :: cs ++ z).head? ≠ some d := by
    intro d hd h
    exact ne_of_apart hc hd (by simpa using h)
  have hskip : ∀ r, skipBlanks (':' :: r) = ':' :: r := fun r =>
    skipBlanks_of_stops (stops_cons.2 (by decide))
  refine ⟨?_, ?_, ?_⟩
  · rw [hskip, List.isPrefixOf_cons_cons, isPrefixOf_eq_false_of_head (hhead ':' (by decide)),
      Bool.and_false]
  · rw [List.isPrefixOf_cons_cons, isPrefixOf_eq_false_of_head (hhead '*' (by decide)),
      Bool.and_false]
  · simp only [skipQualifier]
    cases ha : afterRun? isWord (c :: cs ++ z) with
    | none =>
      rw [Option.getD_none, hskip]
      rfl
    | some y =>
      obtain ⟨m, hm, rfl⟩ := exists_afterRun? ha (stops_isWord hstop)
      have hbehind := hz.behind fun d hd => hname d (hm.subset hd)
      exact isPrefixOf_eq_false_of_head hbehind.noParen

/-- there is an `or` between blanks in the text -/
def SpacedOr (cs : List Char) : Prop :=
  ∃ a x y b, cs = a ++ x :: 'o' :: 'r' :: y :: b ∧ isBlank x = true ∧ isBlank y = true

theorem hasSpacedOr_iff {cs : List Char} : hasSpacedOr cs = true ↔ SpacedOr cs := by
  unfold SpacedOr
  fun_induction hasSpacedOr cs with
  | case1 c d rest ih =>
    rw [Bool.or_eq_true, Bool.and_eq_true, ih]
    constructor
    · rintro (⟨hc, hd⟩ | ⟨a, x, y, b, hrest, hx, hy⟩)
      · exact ⟨[], c, d, rest, rfl, hc, hd⟩
      · exact ⟨c :: a, x, y, b, by rw [hrest, List.cons_append], hx, hy⟩
    · rintro ⟨a, x, y, b, hcs, hx, hy⟩
      cases a with
      | nil =>
        simp only [List.nil_append, List.cons.injEq, true_and] at hcs
        obtain ⟨rfl, rfl, rfl⟩ := hcs
        exact .inl ⟨hx, hy⟩
      | cons e a => exact .inr ⟨a, x, y, b, (List.cons.inj hcs).2, hx, hy⟩
  | case2 c rest hrest ih =>
    rw [ih]
    constructor
    · rintro ⟨a, x, y, b, rfl, hx, hy⟩
      exact ⟨c :: a, x, y, b, rfl, hx, hy⟩
    · rintro ⟨a, x, y, b, hcs, hx, hy⟩
      cases a with
      | nil => exact absurd (List.cons.inj hcs).2 (hrest y b)
      | cons e a => exact ⟨a, x, y, b, (List.cons.inj hcs).2, hx, hy⟩
  | case3 => simp

/-! ## what is no feature, and what is one -/

theorem detect?_cons {c : Char} (hc : isBlank c = false) (cs : List Char) :
    detect? (c :: cs) = all.find? (·.startsAt (c :: cs)) := by
  rw [detect?, skipBlanks_of_stops (stops_cons.2 hc)]

theorem detect?_blanks_append {u : List Char} (hu : full.Blanks u) (cs : List Char) :
    detect? (u ++ cs) = detect? cs := by
  rw [detect?, skipBlanks_append hu, detect?]

/-- **A name is no feature**, unless what stands behind it makes one of it. -/
theorem detect?_name {c : Char} {n z : List Char} (hn : ∀ d ∈ c :: n, isNameChar d = true)
    (hc : isBlank c = false) (hz : Unmarked z) (hstop : Stops isNameLike z) :
    detect? (c :: (n ++ z)) = none := by
  have hne : ∀ d, isNameChar d = false → c ≠ d := fun d =>
    ne_of_apart (hn c List.mem_cons_self)
  have hafter : ∀ {p y}, Stops p z → afterRun? p (c :: (n ++ z)) = some y → Unmarked y := by
    intro p y hp hy
    obtain ⟨m, hm, rfl⟩ := exists_afterRun? (n := c :: n) hy hp
    exact hz.behind fun d hd => hn d (hm.subset hd)
  have hmark : ∀ d cs, isNameChar d = false → c :: (n ++ z) ≠ d :: cs :=
    fun d cs hd h => hne d hd (List.cons.inj h).1
  rw [detect?_cons hc, List.find?_eq_none]
  intro f _
  rw [Bool.not_eq_true]
  cases f with
  | descendantShortcut => exact isPrefixOf_eq_false_of_head (by simpa using hne '/' (by decide))
  | abbreviatedStep => exact isPrefixOf_eq_false_of_head (by simpa using hne '.' (by decide))
  | union => exact isPrefixOf_eq_false_of_head (by simpa using hne '|' (by decide))
  | positionalPredicate =>
    simp only [startsAt]
    split
    · next h => exact absurd h (hmark _ _ (by decide))
    · rfl
  | disjunctivePredicate =>
    simp only [startsAt]
    split
    · next h => exact absurd h (hmark _ _ (by decide))
    · rfl
  -- the runs end in the name or with it
  | explicitAxis =>
    simp only [startsAt]
    split
    · next h => exact (hafter hstop h).axis
    · rfl
  | wildcard =>
    simp only [startsAt, Bool.or_eq_false_iff]
    refine ⟨isPrefixOf_eq_false_of_head (by simpa using hne '*' (by decide)), ?_⟩
    split
    · next h => exact (hafter (stops_isWord hstop) h).wildcard
    · rfl
  | callOrNodeTest =>
    simp only [startsAt]
    split
    · next h => exact (hafter hstop h).call
    · rfl

section
variable {c : Char} {q : List Char} (hq : ∀ d ∈ c :: q, isNameLike d = true)
include hq

theorem detect?_axis (r : List Char) :
    detect? (c :: (q ++ ':' :: ':' :: r)) = some explicitAxis := by
  have hc : isNameLike c = true := hq c List.mem_cons_self
  have hslash : '/' ≠ c := (ne_of_apart hc (by decide +kernel)).symm
  have hrun := afterRun?_run hq (z := ':' :: ':' :: r) (stops_cons.2 (by decide +kernel))
  have hskip : skipBlanks (':' :: ':' :: r) = ':' :: ':' :: r :=
    skipBlanks_of_stops (stops_cons.2 (by decide))
  rw [detect?_cons (isBlank_of_isNameLike hc)]
  simp [all, startsAt, hrun, hskip, hslash]

theorem detect?_call (r : List Char) :
    detect? (c :: (q ++ '(' :: r)) = some callOrNodeTest := by
  have hc : isNameLike c = true := hq c List.mem_cons_self
  have hhead : ∀ d, isNameLike d = false → (c :: (q ++ '(' :: r)).head? ≠ some d := by
    intro d hd h
    exact ne_of_apart hc hd (by simpa using h)
  have hparen : Stops isNameLike ('(' :: r) := stops_cons.2 (by decide +kernel)
  have hskip : skipBlanks ('(' :: r) = '(' :: r := skipBlanks_of_stops (stops_cons.2 (by decide))
  have hrun := afterRun?_run hq hparen
  have hslash : startsAt descendantShortcut (c :: (q ++ '(' :: r)) = false :=
    isPrefixOf_eq_false_of_head (hhead '/' (by decide +kernel))
  have haxis : startsAt explicitAxis (c :: (q ++ '(' :: r)) = false := by
    simp only [startsAt, hrun, hskip]
    rfl
  have hdot : startsAt abbreviatedStep (c :: (q ++ '(' :: r)) = false :=
    isPrefixOf_eq_false_of_head (hhead '.' (by decide +kernel))
  have hwildcard : startsAt wildcard (c :: (q ++ '(' :: r)) = false := by
    simp only [startsAt, Bool.or_eq_false_iff]
    refine ⟨isPrefixOf_eq_false_of_head (hhead '*' (by decide +kernel)), ?_⟩
    split
    · next y hy =>
      -- a run of word characters may end at a hyphen, but at no colon
      obtain ⟨m, hm, rfl⟩ := exists_afterRun? (n := c :: q) hy (stops_isWord hparen)
      refine isPrefixOf_eq_false_of_head fun h => ?_
      cases m with
      | nil => exact absurd h (by simp)
      | cons d m =>
        obtain rfl : d = ':' := by simpa using h
        exact absurd (hq ':' (hm.subset List.mem_cons_self)) (by decide +kernel)
    · rfl
  have hcall : startsAt callOrNodeTest (c :: (q ++ '(' :: r)) = true := by
    simp only [startsAt, hrun, skipQualifier]
    rfl
  rw [detect?_cons (isBlank_of_isNameLike hc)]
  simp only [all, List.find?, hslash, haxis, hdot, hwildcard, hcall]

end

theorem detect?_slash (r : List Char) : detect? ('/' :: r) = some descendantShortcut := by
  rw [detect?_cons (by decide)]
  rfl

theorem detect?_dot (r : List Char) : detect? ('.' :: r) = some abbreviatedStep := by
  have hrun := afterRun?_of_not (p := isNameLike) (c := '.') (by decide +kernel) r
  rw [detect?_cons (by decide)]
  simp [all, startsAt, hrun]

theorem detect?_asterisk (r : List Char) : detect? ('*' :: r) = some wildcard := by
  have hrun := afterRun?_of_not (p := isNameLike) (c := '*') (by decide +kernel) r
  rw [detect?_cons (by decide)]
  simp [all, startsAt, hrun]

theorem detect?_bar (r : List Char) : detect? ('|' :: r) = some union := by
  have hrun := afterRun?_of_not (p := isNameLike) (c := '|') (by decide +kernel) r
  have hrun' := afterRun?_of_not (p := isWord) (c := '|') (by decide +kernel) r
  rw [detect?_cons (by decide)]
  simp [all, startsAt, hrun, hrun']

/-- Of the features that begin with a bracket, the first one asks for a digit behind blanks. -/
theorem detect?_bracket (r : List Char) : detect? ('[' :: r) =
    if (skipBlanks r).head?.any isDecimal then some positionalPredicate
    else if hasSpacedOr (r.takeWhile (· != ']')) then some disjunctivePredicate else none := by
  have hrun := afterRun?_of_not (p := isNameLike) (c := '[') (by decide +kernel) r
  have hrun' := afterRun?_of_not (p := isWord) (c := '[') (by decide +kernel) r
  have hposition : startsAt positionalPredicate ('[' :: r) =
      (skipBlanks r).head?.any isDecimal := by
    simp only [startsAt]
    cases skipBlanks r <;> rfl
  have hdisjunctive : startsAt disjunctivePredicate ('[' :: r) =
      hasSpacedOr (r.takeWhile (· != ']')) := rfl
  have hunion : startsAt union ('[' :: r) = false := rfl
  have hdetect : detect? ('[' :: r) =
      [positionalPredicate, disjunctivePredicate, union].find? (·.startsAt ('[' :: r)) := by
    rw [detect?_cons (by decide)]
    simp [all, List.find?_cons, startsAt, hrun, hrun']
  rw [hdetect]
  simp only [List.find?_cons, List.find?_nil, hposition, hdisjunctive, hunion]
  cases (skipBlanks r).head?.any isDecimal with
  | true => rfl
  | false => cases hasSpacedOr (r.takeWhile (· != ']')) <;> rfl

theorem detect?_position {d : Char} (hd : d.isDigit = true) (r : List Char) :
    detect? ('[' :: d :: r) = some positionalPredicate := by
  have hskip : skipBlanks (d :: r) = d :: r :=
    skipBlanks_of_stops (stops_cons.2 (isBlank_of_isDigit hd))
  rw [detect?_bracket, hskip, List.head?_cons, Option.any_some, isDecimal_of_isDigit hd, if_pos rfl]

end Feature

end XmlPaths

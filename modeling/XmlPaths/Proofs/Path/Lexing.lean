import XmlPaths.Path.Parser
import XmlPaths.Proofs.Path.Grammar
import XmlPaths.Tree.Name

/-!
# Lexemes at the front of a text

The readers of names, literals and comparisons, on texts that the grammar spells.  A name ends
where a reader ends it if the text does not go on with a name character.

* `Stops`               the text does not go on with a character of a class;
* `Alphabet.Separate`, `Alphabet.Clear`   alphabets of path expressions in which a blank ends a
                        name, and in which no name begins with a blank either;
* `takeName?_append`, `takeComparison?_append`   names and comparisons are read back;
* `comparisonsIn_of_clause`   the comparisons that occur in a clause are those it spells.
-/

namespace XmlPaths

theorem ne_of_apart {p : Char → Bool} {c d : Char} (hc : p c = true) (hd : p d = false) :
    c ≠ d := by
  rintro rfl
  rw [hc] at hd
  exact absurd hd (by simp)

/-- the text does not go on with a character of the class -/
def Stops (p : Char → Bool) (r : List Char) : Prop := ∀ c ∈ r.head?, p c = false

section
variable {p : Char → Bool}

theorem stops_nil : Stops p [] := fun _ h => absurd h (by simp)

theorem stops_cons {c : Char} {cs : List Char} : Stops p (c :: cs) ↔ p c = false := by
  simp [Stops]

theorem stops_dropWhile (r : List Char) : Stops p (r.dropWhile p) := by
  intro c hc
  have h := List.head?_dropWhile_not p r
  rw [Option.mem_def.1 hc] at h
  simpa using h

theorem dropWhile_of_stops {r : List Char} (h : Stops p r) : r.dropWhile p = r := by
  cases r with
  | nil => rfl
  | cons c cs => simp [stops_cons.1 h]

theorem takeWhile_of_stops {r : List Char} (h : Stops p r) : r.takeWhile p = [] := by
  cases r with
  | nil => rfl
  | cons c cs => simp [stops_cons.1 h]

theorem dropWhile_append_of_stops (a : List Char) {r : List Char} (h : Stops p r) :
    (a ++ r).dropWhile p = a.dropWhile p ++ r := by
  rw [List.dropWhile_append]
  split
  · next ha => rw [dropWhile_of_stops h, List.isEmpty_iff.1 ha, List.nil_append]
  · rfl

theorem takeWhile_append_of_stops (a : List Char) {r : List Char} (h : Stops p r) :
    (a ++ r).takeWhile p = a.takeWhile p := by
  induction a with
  | nil => exact takeWhile_of_stops h
  | cons d a ih => rw [List.cons_append, List.takeWhile_cons, List.takeWhile_cons, ih]

/-- a text goes on with what follows its first part, if that part is not empty -/
theorem stops_append {u r : List Char} (hu : ∀ c ∈ u, p c = false) (hr : Stops p r) :
    Stops p (u ++ r) := by
  cases u with
  | nil => exact hr
  | cons c u => exact stops_cons.2 (hu c (by simp))

end

/-! ## blanks -/

theorem skipBlanks_append {u : List Char} (hu : Alphabet.full.Blanks u) (r : List Char) :
    skipBlanks (u ++ r) = skipBlanks r :=
  List.dropWhile_append_of_pos hu

theorem skipBlanks_blanks {u : List Char} (hu : Alphabet.full.Blanks u) : skipBlanks u = [] := by
  have h := skipBlanks_append hu []
  rwa [List.append_nil] at h

theorem skipBlanks_of_stops {r : List Char} (h : Stops isBlank r) : skipBlanks r = r :=
  dropWhile_of_stops h

theorem skipBlanks_append_cons {u : List Char} (hu : Alphabet.full.Blanks u) {c : Char}
    (hc : isBlank c = false) (r : List Char) : skipBlanks (u ++ c :: r) = c :: r := by
  rw [skipBlanks_append hu, skipBlanks_of_stops (stops_cons.2 hc)]

theorem stops_skipBlanks (r : List Char) : Stops isBlank (skipBlanks r) := stops_dropWhile r

theorem head?_ne_of_skipBlanks {c : Char} {r : List Char} (hc : isBlank c = false)
    (h : (skipBlanks r).head? ≠ some c) : r.head? ≠ some c := by
  intro hr
  obtain ⟨r', rfl⟩ := List.head?_eq_some_iff.1 hr
  rw [skipBlanks_of_stops (stops_cons.2 hc)] at h
  exact h rfl

theorem exists_blanks_append (r : List Char) :
    ∃ u, Alphabet.full.Blanks u ∧ r = u ++ skipBlanks r :=
  ⟨r.takeWhile isBlank, List.all_eq_true.1 List.all_takeWhile,
    (List.takeWhile_append_dropWhile).symm⟩

/-- The ogham space mark is the only blank that occurs in names. -/
theorem eq_oghamSpace_of_isBlank_of_isNameChar {c : Char} (hb : isBlank c = true)
    (hn : isNameChar c = true) : c = oghamSpace := by
  have hc : c.toNat = 0x1680 := by
    simp only [isBlank, blankRanges, isNameChar, isNameStart, nameStartRanges, nameOnlyRanges,
      Ranges.covers, List.any_cons, List.any_nil, Bool.or_eq_true, Bool.and_eq_true,
      decide_eq_true_eq, Bool.or_false] at hb hn
    omega
  exact Char.ext (UInt32.toNat_inj.1 hc)

/-! ## letters and digits -/

theorem toNat_of_between {c a b : Char}
    (h : (decide (c.val ≥ a.val) && decide (c.val ≤ b.val)) = true) :
    a.toNat ≤ c.toNat ∧ c.toNat ≤ b.toNat := by
  rw [Bool.and_eq_true, decide_eq_true_eq, decide_eq_true_eq] at h
  exact h

theorem toNat_of_isDigit {c : Char} (h : c.isDigit = true) : 0x30 ≤ c.toNat ∧ c.toNat ≤ 0x39 :=
  toNat_of_between (a := '0') (b := '9') h

/-- Letters and digits are those of ASCII. -/
theorem toNat_of_isAlphanum {c : Char} (h : c.isAlphanum = true) :
    (0x41 ≤ c.toNat ∧ c.toNat ≤ 0x5a) ∨ (0x61 ≤ c.toNat ∧ c.toNat ≤ 0x7a) ∨
      (0x30 ≤ c.toNat ∧ c.toNat ≤ 0x39) := by
  have hupper : c.isUpper = true → 0x41 ≤ c.toNat ∧ c.toNat ≤ 0x5a := of_decide_eq_true
  have hlower : c.isLower = true → 0x61 ≤ c.toNat ∧ c.toNat ≤ 0x7a :=
    toNat_of_between (a := 'a') (b := 'z')
  change ((c.isUpper || c.isLower) || c.isDigit) = true at h
  rw [Bool.or_eq_true, Bool.or_eq_true] at h
  rcases h with (h | h) | h
  · exact .inl (hupper h)
  · exact .inr (.inl (hlower h))
  · exact .inr (.inr (toNat_of_isDigit h))

/-! ## alphabets of path expressions -/

namespace Alphabet

/-- Path expressions over the alphabet, in which a blank ends a name. -/
structure Separate (A : Alphabet) : Prop where
  isBlank : ∀ {c}, A.blank c = true → isBlank c = true
  isNameStart : ∀ {c}, A.nameStart c = true → isNameStart c = true
  isNameChar : ∀ {c}, A.nameChar c = true → isNameChar c = true
  blank_apart : ∀ {c}, A.blank c = true → XmlPaths.isNameChar c = false

/-- Path expressions over the alphabet, in which no character is both a blank and part of a name. -/
structure Clear (A : Alphabet) : Prop extends A.Separate where
  start_apart : ∀ {c}, A.nameStart c = true → XmlPaths.isBlank c = false

namespace Separate

variable {A : Alphabet} (hA : A.Separate)
include hA

theorem blanks {w : List Char} (h : A.Blanks w) : full.Blanks w := fun c hc => hA.isBlank (h c hc)

theorem isName {n : List Char} (h : A.IsName n) : full.IsName n := by
  obtain ⟨c, cs, rfl, hc, hcs⟩ := h.exists_cons
  exact ⟨hA.isNameStart hc, fun d hd => hA.isNameChar (hcs d hd)⟩

omit hA in
theorem spellsLiteral {v l : List Char} (h : A.SpellsLiteral v l) : full.SpellsLiteral v l := by
  cases h with
  | intro hq hv _ => exact .intro hq hv fun _ _ => rfl

theorem spellsComparison {k : Comparison} {t : List Char} (h : A.SpellsComparison k t) :
    full.SpellsComparison k t := by
  cases h with
  | present hn => exact .present (hA.isName hn)
  | demanded hn hu hw hl =>
    exact .demanded (hA.isName hn) (hA.blanks hu) (hA.blanks hw) (spellsLiteral hl)

theorem spellsJoints {ks : List Comparison} {t : List Char} (h : A.SpellsJoints ks t) :
    full.SpellsJoints ks t := by
  induction h with
  | nil => exact .nil
  | cons hu hu' hw hw' hk _ ih =>
    exact .cons (hA.blanks hu) hu' (hA.blanks hw) hw' (hA.spellsComparison hk) ih

theorem spellsClause {ks : List Comparison} {t : List Char} (h : A.SpellsClause ks t) :
    full.SpellsClause ks t := by
  cases h with
  | intro hu hk hks hw =>
    exact .intro (hA.blanks hu) (hA.spellsComparison hk) (hA.spellsJoints hks) (hA.blanks hw)

theorem stops_blanks_append {u r : List Char} (hu : A.Blanks u) (hr : Stops XmlPaths.isNameChar r) :
    Stops XmlPaths.isNameChar (u ++ r) :=
  stops_append (fun c hc => hA.blank_apart (hu c hc)) hr

end Separate

end Alphabet

/-! ## names and literals -/

open Alphabet

theorem isNameChar_of_isName {n : List Char} (h : full.IsName n) :
    ∀ c ∈ n, isNameChar c = true := by
  obtain ⟨c, cs, rfl, hc, hcs⟩ := h.exists_cons
  intro d hd
  rcases List.mem_cons.1 hd with rfl | hd
  · have hc' : isNameStart d = true := hc
    rw [isNameChar, hc', Bool.true_or]
  · exact hcs d hd

theorem takeName?_append {n : List Char} (hn : full.IsName n) (r : List Char) :
    takeName? (n ++ r) = some (n ++ r.takeWhile isNameChar, r.dropWhile isNameChar) := by
  obtain ⟨c, cs, rfl, hc, hcs⟩ := hn.exists_cons
  have hc' : isNameStart c = true := hc
  have hcs' : ∀ d ∈ cs, isNameChar d = true := hcs
  simp only [List.cons_append, takeName?, hc', if_true, List.takeWhile_append_of_pos hcs',
    List.dropWhile_append_of_pos hcs']

theorem takeName?_append_of_stops {n r : List Char} (hn : full.IsName n)
    (hr : Stops isNameChar r) : takeName? (n ++ r) = some (n, r) := by
  rw [takeName?_append hn, takeWhile_of_stops hr, dropWhile_of_stops hr, List.append_nil]

theorem takeName?_of_not_start {c : Char} (hc : isNameStart c = false) (cs : List Char) :
    takeName? (c :: cs) = none := by
  simp [takeName?, hc]

theorem isName_of_takeName? {cs n r : List Char} (h : takeName? cs = some (n, r)) :
    full.IsName n ∧ cs = n ++ r := by
  cases cs with
  | nil => simp [takeName?] at h
  | cons c cs =>
    simp only [takeName?] at h
    split at h
    · next hc =>
      simp only [Option.some.injEq, Prod.mk.injEq] at h
      obtain ⟨rfl, rfl⟩ := h
      refine ⟨⟨hc, List.all_eq_true.1 List.all_takeWhile⟩, ?_⟩
      rw [List.cons_append, List.takeWhile_append_dropWhile]
    · simp at h

theorem takeLiteral?_append {v l : List Char} (h : full.SpellsLiteral v l) (r : List Char) :
    takeLiteral? (l ++ r) = some (v, r) := by
  cases h with
  | @intro q _ hq hv _ =>
    rcases hq with rfl | rfl
    · simpa [takeLiteral?] using takeUntilQuote?_append hv r
    · simpa [takeLiteral?] using takeUntilQuote?_append hv r

theorem not_mem_of_takeUntilQuote? {q : Char} {cs v r : List Char}
    (h : takeUntilQuote? q cs = some (v, r)) : q ∉ v := by
  simp only [takeUntilQuote?] at h
  split at h
  · exact absurd h (by simp)
  · simp only [Option.some.injEq, Prod.mk.injEq] at h
    rw [← h.1]
    intro hq
    have hall := List.all_eq_true.1 (List.all_takeWhile (p := (· != q)) (l := cs)) q hq
    simp at hall

theorem exists_spellsLiteral_of_takeLiteral? {cs v r : List Char}
    (h : takeLiteral? cs = some (v, r)) : ∃ l, full.SpellsLiteral v l ∧ cs = l ++ r := by
  have hquoted : ∀ {q : Char} {cs' : List Char}, q = '\'' ∨ q = '"' →
      takeUntilQuote? q cs' = some (v, r) →
      ∃ l, full.SpellsLiteral v l ∧ q :: cs' = l ++ r := by
    intro q cs' hq hv
    have hnot := not_mem_of_takeUntilQuote? hv
    rw [takeUntilQuote?] at hv
    split at hv
    · exact absurd hv (by simp)
    · next c rest hdrop =>
      rw [Option.some.injEq, Prod.mk.injEq] at hv
      obtain ⟨rfl, rfl⟩ := hv
      have hc : c = q := by
        have hhead := List.head?_dropWhile_not (· != q) cs'
        rw [hdrop] at hhead
        simpa using hhead
      refine ⟨_, .intro hq hnot fun _ _ => rfl, ?_⟩
      rw [← hc, List.cons_append, List.append_assoc, List.singleton_append, ← hdrop, hc,
        List.takeWhile_append_dropWhile]
  rw [takeLiteral?.eq_def] at h
  split at h
  · exact hquoted (.inl rfl) h
  · exact hquoted (.inr rfl) h
  · exact absurd h (by simp)

theorem Alphabet.SpellsLiteral.stops_isBlank {v l : List Char} (h : full.SpellsLiteral v l)
    (r : List Char) : Stops isBlank (l ++ r) := by
  cases h with
  | intro hq _ _ => rcases hq with rfl | rfl <;> exact stops_cons.2 (by decide)

/-! ## comparisons -/

theorem takeDemand?_append {u w v l : List Char} (hu : full.Blanks u) (hw : full.Blanks w)
    (hl : full.SpellsLiteral v l) (r : List Char) :
    takeDemand? (u ++ '=' :: (w ++ (l ++ r))) = some (v, r) := by
  have h : skipBlanks (u ++ '=' :: (w ++ (l ++ r))) = '=' :: (w ++ (l ++ r)) := by
    rw [skipBlanks_append_cons hu (by decide)]
  simp only [takeDemand?, h]
  rw [skipBlanks_append hw, skipBlanks_of_stops (hl.stops_isBlank r),
    takeLiteral?_append hl]

theorem takeDemand?_eq_none {r : List Char} (h : (skipBlanks r).head? ≠ some '=') :
    takeDemand? r = none := by
  simp only [takeDemand?]
  split
  · next rest e => rw [e] at h; exact absurd rfl h
  · rfl

theorem takeComparison?_append {A : Alphabet} (hA : A.Separate) {k : Comparison} {t r : List Char}
    (hk : A.SpellsComparison k t) (hr : Stops isNameChar r)
    (hr' : (skipBlanks r).head? ≠ some '=') : takeComparison? (t ++ r) = some (k, r) := by
  cases hk with
  | present hn =>
    simp only [List.cons_append, takeComparison?,
      takeName?_append_of_stops (hA.isName hn) hr, takeDemand?_eq_none hr']
  | @demanded n u w v l hn hu hw hl =>
    have hstop : Stops isNameChar (u ++ '=' :: (w ++ (l ++ r))) :=
      hA.stops_blanks_append hu (stops_cons.2 (by decide))
    have hname := takeName?_append_of_stops (hA.isName hn) hstop
    have hdemand := takeDemand?_append (hA.blanks hu) (hA.blanks hw) (Separate.spellsLiteral hl) r
    simp only [List.cons_append, List.append_assoc, takeComparison?, hname, hdemand]

/-! ## the comparisons in a clause -/

theorem comparisonsIn_cons_of_ne {c : Char} (hc : c ≠ '@') (cs : List Char) :
    comparisonsIn (c :: cs) = comparisonsIn cs := by
  have h : takeComparison? (c :: cs) = none := by
    simp only [takeComparison?]
    split
    · next h => exact absurd (List.cons.inj h).1 hc
    · rfl
  rw [comparisonsIn]
  split
  · next h' => rw [h] at h'; simp at h'
  · rfl

theorem comparisonsIn_append_of_not_mem {a : List Char} (ha : '@' ∉ a) (r : List Char) :
    comparisonsIn (a ++ r) = comparisonsIn r := by
  induction a with
  | nil => rfl
  | cons c a ih =>
    have hc : c ≠ '@' := fun e => ha (by simp [e])
    rw [List.cons_append, comparisonsIn_cons_of_ne hc, ih fun h => ha (List.mem_cons_of_mem _ h)]

theorem comparisonsIn_blanks_append {u : List Char} (hu : full.Blanks u) (r : List Char) :
    comparisonsIn (u ++ r) = comparisonsIn r :=
  comparisonsIn_append_of_not_mem (fun h => absurd (hu '@' h) (by decide)) r

theorem comparisonsIn_of_takeComparison? {cs r : List Char} {k : Comparison}
    (h : takeComparison? cs = some (k, r)) : comparisonsIn cs = k :: comparisonsIn r := by
  cases cs with
  | nil => exact absurd h (by simp [takeComparison?])
  | cons c cs =>
    rw [comparisonsIn]
    split
    · next h' =>
      rw [h, Option.some.injEq, Prod.mk.injEq] at h'
      rw [h'.1, h'.2]
    · next h' =>
      rw [h] at h'
      exact absurd h' (by simp)

theorem comparisonsIn_append {A : Alphabet} (hA : A.Separate) {k : Comparison} {t r : List Char}
    (hk : A.SpellsComparison k t) (hr : Stops isNameChar r)
    (hr' : (skipBlanks r).head? ≠ some '=') :
    comparisonsIn (t ++ r) = k :: comparisonsIn r :=
  comparisonsIn_of_takeComparison? (takeComparison?_append hA hk hr hr')

/-- the comparisons behind the first one, whatever follows the clause -/
theorem comparisonsIn_joints {A : Alphabet} (hA : A.Separate) {ks : List Comparison}
    {ts w r : List Char} (hks : A.SpellsJoints ks ts) (hw : A.Blanks w) :
    Stops isNameChar (ts ++ (w ++ ']' :: r)) ∧
      (skipBlanks (ts ++ (w ++ ']' :: r))).head? ≠ some '=' ∧
      comparisonsIn (ts ++ (w ++ ']' :: r)) = ks ++ comparisonsIn r := by
  induction hks with
  | nil =>
    have hskip : skipBlanks (w ++ ']' :: r) = ']' :: r :=
      skipBlanks_append_cons (hA.blanks hw) (by decide) r
    rw [List.nil_append, List.nil_append]
    refine ⟨hA.stops_blanks_append hw (stops_cons.2 (by decide)), ?_, ?_⟩
    · rw [hskip]; simp
    · rw [comparisonsIn_blanks_append (hA.blanks hw), comparisonsIn_cons_of_ne (by decide)]
  | @cons k ks t ts u v hu hu' hv hv' hk hks ih =>
    obtain ⟨hstop, heq, hin⟩ := ih
    obtain ⟨c, u', rfl⟩ := List.exists_cons_of_ne_nil hu'
    have hc : isNameChar c = false := hA.blank_apart (hu c (by simp))
    have happ : (c :: u' ++ 'a' :: 'n' :: 'd' :: (v ++ (t ++ ts))) ++ (w ++ ']' :: r) =
        c :: u' ++ 'a' :: 'n' :: 'd' :: (v ++ (t ++ (ts ++ (w ++ ']' :: r)))) := by simp
    rw [happ]
    refine ⟨stops_cons.2 hc, ?_, ?_⟩
    · rw [skipBlanks_append_cons (hA.blanks hu) (by decide)]
      simp
    · rw [comparisonsIn_blanks_append (hA.blanks hu), comparisonsIn_cons_of_ne (by decide),
        comparisonsIn_cons_of_ne (by decide), comparisonsIn_cons_of_ne (by decide),
        comparisonsIn_blanks_append (hA.blanks hv), comparisonsIn_append hA hk hstop heq, hin,
        List.cons_append]

theorem comparisonsIn_of_clause {A : Alphabet} (hA : A.Separate) {ks : List Comparison}
    {t : List Char} (h : A.SpellsClause ks t) : comparisonsIn t = ks := by
  cases h with
  | @intro k ks t ts u w hu hk hks hw =>
    obtain ⟨hstop, heq, hin⟩ := comparisonsIn_joints (r := []) hA hks hw
    rw [comparisonsIn_cons_of_ne (by decide), comparisonsIn_blanks_append (hA.blanks hu),
      comparisonsIn_append hA hk hstop heq, hin, comparisonsIn_nil, List.append_nil]

end XmlPaths

import Mathlib.Data.List.Forall2
import XmlPaths.Proofs.Path.Clause
import XmlPaths.Proofs.Path.Restriction

/-!
# The comparisons that are read from a clause

A clause is accepted by its pattern, which ends a name where the rest of the clause needs it; its
comparisons are then looked for in its text, each name as long as possible.  The names may differ
where ogham space marks stand behind them, and even an `and` behind such a mark may be taken for a
part of a name.  Then there is no derivation of the clause with the comparisons that are read.

* `runsOn`                  names that go on up to the next comparison;
* `Alphabet.SpellsEnd`      what follows a comparison in a clause;
* `comparisonsIn_present`, `comparisonsIn_demanded`   how a comparison is read;
* `SpellsEnd.reread`, `SpellsEnd.not_runsOn`   what is read is spelled, if no name runs on, and
                            only then;
* `comparisonsIn_of_matches`   the comparisons that are read, against those of the derivations.
-/

namespace XmlPaths

open Alphabet

/-! ## names that run on -/

/-- Whether a name behind an at sign goes on up to the next at sign, if it is read as long as
possible: it takes the `and` in between. -/
def runsOn : List Char → Bool
  | [] => false
  | c :: cs => (c == '@' && (skipBlanks (cs.dropWhile isNameChar)).head? == some '@') || runsOn cs

theorem runsOn_append_of_not_mem {a : List Char} (ha : '@' ∉ a) (r : List Char) :
    runsOn (a ++ r) = runsOn r := by
  induction a with
  | nil => rfl
  | cons c a ih =>
    have hc : (c == '@') = false := beq_eq_false_iff_ne.2 fun e => ha (by simp [e])
    rw [List.cons_append, runsOn, hc, Bool.false_and, Bool.false_or,
      ih fun h => ha (List.mem_cons_of_mem _ h)]

theorem at_not_mem_blanks {u : List Char} (hu : full.Blanks u) : '@' ∉ u :=
  fun h => absurd (hu '@' h) (by decide)

theorem at_not_mem_nameChars {n : List Char} (hn : ∀ c ∈ n, isNameChar c = true) : '@' ∉ n :=
  fun h => absurd (hn '@' h) (by decide)

/-- What a name before the text `a` ends at, if `a` is followed by neither a blank nor a name
character. -/
theorem head?_behind_name {c : Char} (hc : isNameChar c = false) (hb : isBlank c = false)
    (a r : List Char) : (skipBlanks ((a ++ c :: r).dropWhile isNameChar)).head? =
      (skipBlanks (a.dropWhile isNameChar)).head?.or (some c) := by
  rw [dropWhile_append_of_stops a (stops_cons.2 hc), skipBlanks,
    dropWhile_append_of_stops _ (stops_cons.2 hb), List.head?_append]
  rfl

/-! ## what follows a comparison -/

/-- what follows a comparison in a clause: further ones, and the closing bracket -/
inductive Alphabet.SpellsEnd : List Comparison → List Char → Prop
  | close {w : List Char} (hw : full.Blanks w) : SpellsEnd [] (w ++ [']'])
  | joint {k : Comparison} {ks : List Comparison} {t r u w : List Char}
      (hu : full.Blanks u) (hu' : u ≠ []) (hw : full.Blanks w) (hw' : w ≠ [])
      (hk : full.SpellsComparison k t) (hr : SpellsEnd ks r) :
      SpellsEnd (k :: ks) (u ++ 'a' :: 'n' :: 'd' :: (w ++ (t ++ r)))

theorem spellsEnd_iff {ks : List Comparison} {r : List Char} :
    SpellsEnd ks r ↔ ∃ ts w, full.SpellsJoints ks ts ∧ full.Blanks w ∧ r = ts ++ (w ++ [']']) := by
  constructor
  · intro h
    induction h with
    | close hw => exact ⟨[], _, .nil, hw, rfl⟩
    | joint hu hu' hw hw' hk _ ih =>
      obtain ⟨ts, x, hts, hx, rfl⟩ := ih
      exact ⟨_, x, .cons hu hu' hw hw' hk hts, hx, by simp⟩
  · rintro ⟨ts, w, hts, hw, rfl⟩
    induction hts with
    | nil => exact .close hw
    | cons hu hu' hv hv' hk _ ih =>
      have h := SpellsEnd.joint hu hu' hv hv' hk ih
      simpa only [List.append_assoc, List.cons_append] using h

theorem spellsClause_iff {ks : List Comparison} {t : List Char} :
    full.SpellsClause ks t ↔ ∃ k rest u c r, ks = k :: rest ∧ full.Blanks u ∧
      full.SpellsComparison k c ∧ SpellsEnd rest r ∧ t = '[' :: (u ++ (c ++ r)) := by
  constructor
  · intro h
    cases h with
    | intro hu hk hks hw =>
      exact ⟨_, _, _, _, _, rfl, hu, hk, spellsEnd_iff.2 ⟨_, _, hks, hw, rfl⟩, rfl⟩
  · rintro ⟨k, rest, u, c, r, rfl, hu, hk, hr, rfl⟩
    obtain ⟨ts, w, hts, hw, rfl⟩ := spellsEnd_iff.1 hr
    exact .intro hu hk hts hw

namespace Alphabet.SpellsEnd

variable {ks : List Comparison} {r : List Char} (h : SpellsEnd ks r)
include h

/-- Up to the next at sign or the bracket there are neither quotes nor equality signs. -/
theorem exists_ahead : ∃ a c y, r = a ++ c :: y ∧ (c = '@' ∨ c = ']') ∧
    ∀ d ∈ a, isBlank d = true ∨ d = 'a' ∨ d = 'n' ∨ d = 'd' := by
  cases h with
  | @close w hw => exact ⟨w, ']', [], rfl, .inr rfl, fun d hd => .inl (hw d hd)⟩
  | @joint k ks t r u w hu _ hw _ hk _ =>
    obtain ⟨t', rfl⟩ : ∃ t', t = '@' :: t' := by cases hk <;> exact ⟨_, rfl⟩
    refine ⟨u ++ 'a' :: 'n' :: 'd' :: w, '@', t' ++ r, by simp, .inl rfl, fun d hd => ?_⟩
    simp only [List.mem_append, List.mem_cons] at hd
    rcases hd with hd | rfl | rfl | rfl | hd
    · exact .inl (hu d hd)
    · exact .inr (.inl rfl)
    · exact .inr (.inr (.inl rfl))
    · exact .inr (.inr (.inr rfl))
    · exact .inl (hw d hd)

/-- A name in front does not go on with a demanded value. -/
theorem noDemand : (skipBlanks (r.dropWhile isNameChar)).head? ≠ some '=' := by
  obtain ⟨a, c, y, rfl, hc, ha⟩ := h.exists_ahead
  have hplain : isNameChar c = false ∧ isBlank c = false ∧ c ≠ '=' := by
    rcases hc with rfl | rfl <;> decide
  rw [head?_behind_name hplain.1 hplain.2.1]
  intro heq
  rcases Option.or_eq_some_iff.1 heq with heq | ⟨-, heq⟩
  · have hmem : '=' ∈ a := (List.dropWhile_subset isNameChar)
      ((List.dropWhile_subset isBlank) (List.mem_of_mem_head? heq))
    have hnot := ha '=' hmem
    revert hnot
    decide
  · exact hplain.2.2 (Option.some.inj heq)

/-- Up to the next at sign there is nothing that is left out as a literal. -/
theorem head?_unquoted : (skipBlanks ((unquoted none r).dropWhile isNameChar)).head? =
    (skipBlanks (r.dropWhile isNameChar)).head? := by
  obtain ⟨a, c, y, rfl, hc, ha⟩ := h.exists_ahead
  have hplain : isNameChar c = false ∧ isBlank c = false ∧ c ≠ '\'' ∧ c ≠ '"' := by
    rcases hc with rfl | rfl <;> decide
  have hquotes : ∀ d ∈ a, d ≠ '\'' ∧ d ≠ '"' := by
    intro d hd
    rcases ha d hd with hb | rfl | rfl | rfl
    · constructor <;> (rintro rfl; exact absurd hb (by decide))
    · decide
    · decide
    · decide
  rw [closed_of_no_quotes hquotes, unquoted_of_no_quotes hquotes,
    unquoted_cons hplain.2.2.1 hplain.2.2.2, head?_behind_name hplain.1 hplain.2.1,
    head?_behind_name hplain.1 hplain.2.1]

/-- a name in front that takes nothing does not go on up to an at sign -/
theorem head?_ne_at : (skipBlanks r).head? ≠ some '@' := by
  cases h with
  | @close w hw =>
    rw [skipBlanks_append hw]
    decide
  | @joint k ks t r u w hu =>
    rw [skipBlanks_append_cons hu (by decide)]
    simp

/-- A name in front takes some of the blanks, if it does not take the `and`. -/
theorem dropWhile (hstop : (skipBlanks (r.dropWhile isNameChar)).head? ≠ some '@') :
    SpellsEnd ks (r.dropWhile isNameChar) := by
  have hsuffix : ∀ {w}, full.Blanks w → full.Blanks (w.dropWhile isNameChar) :=
    fun hw c hc => hw c (List.dropWhile_subset isNameChar hc)
  cases h with
  | @close w hw =>
    rw [dropWhile_append_of_stops w (stops_cons.2 (by decide))]
    exact .close (hsuffix hw)
  | @joint k ks t r u w hu hu' hw hw' hk hr =>
    by_cases hrest : u.dropWhile isNameChar = []
    · -- the name takes the blanks, and then the `and` as well
      obtain ⟨t', rfl⟩ : ∃ t', t = '@' :: t' := by cases hk <;> exact ⟨_, rfl⟩
      have hdrop : (u ++ 'a' :: 'n' :: 'd' :: (w ++ ('@' :: t' ++ r))).dropWhile isNameChar =
          w.dropWhile isNameChar ++ '@' :: (t' ++ r) := by
        rw [List.dropWhile_append, hrest]
        exact dropWhile_append_of_stops w (stops_cons.2 (by decide))
      rw [hdrop, skipBlanks_append_cons (hsuffix hw) (by decide)] at hstop
      exact absurd rfl hstop
    · have hdrop : (u ++ 'a' :: 'n' :: 'd' :: (w ++ (t ++ r))).dropWhile isNameChar =
          u.dropWhile isNameChar ++ 'a' :: 'n' :: 'd' :: (w ++ (t ++ r)) := by
        rw [List.dropWhile_append, if_neg (by simpa using hrest)]
      rw [hdrop]
      exact .joint (hsuffix hu) hrest hw hw' hk hr

end Alphabet.SpellsEnd

/-! ## how a comparison is read -/

theorem comparisonsIn_dropWhile (r : List Char) :
    comparisonsIn (r.dropWhile isNameChar) = comparisonsIn r := by
  have hname : '@' ∉ r.takeWhile isNameChar :=
    at_not_mem_nameChars (List.all_eq_true.1 List.all_takeWhile)
  have h := comparisonsIn_append_of_not_mem hname (r.dropWhile isNameChar)
  rw [List.takeWhile_append_dropWhile] at h
  exact h.symm

theorem comparisonsIn_present {n r : List Char} (hn : full.IsName n)
    (hr : (skipBlanks (r.dropWhile isNameChar)).head? ≠ some '=') :
    comparisonsIn ('@' :: (n ++ r)) =
      ⟨String.ofList (n ++ r.takeWhile isNameChar), none⟩ :: comparisonsIn r := by
  have h : takeComparison? ('@' :: (n ++ r)) =
      some (⟨String.ofList (n ++ r.takeWhile isNameChar), none⟩, r.dropWhile isNameChar) := by
    simp only [takeComparison?, takeName?_append hn, takeDemand?_eq_none hr]
  rw [comparisonsIn_of_takeComparison? h, comparisonsIn_dropWhile]

theorem comparisonsIn_demanded {n u w v l : List Char} (hn : full.IsName n) (hu : full.Blanks u)
    (hw : full.Blanks w) (hl : full.SpellsLiteral v l) (r : List Char) :
    comparisonsIn ('@' :: (n ++ (u ++ '=' :: (w ++ (l ++ r))))) =
      ⟨String.ofList (n ++ u.takeWhile isNameChar), some (String.ofList v)⟩ ::
        comparisonsIn r := by
  have hu' : full.Blanks (u.dropWhile isNameChar) :=
    fun c hc => hu c (List.dropWhile_subset isNameChar hc)
  have hstop : Stops isNameChar ('=' :: (w ++ (l ++ r))) := stops_cons.2 (by decide)
  apply comparisonsIn_of_takeComparison?
  simp only [takeComparison?, takeName?_append hn, takeWhile_append_of_stops u hstop,
    dropWhile_append_of_stops u hstop, takeDemand?_append hu' hw hl]

theorem unquoted_literal {v l : List Char} (hl : full.SpellsLiteral v l) (r : List Char) :
    unquoted none (l ++ r) = unquoted none r := by
  cases hl with
  | @intro q _ hq hv _ =>
    have h := unquoted_content hv r
    simpa [unquoted, hq] using h

/-! ## the text outside of literals -/

section
variable {n : List Char} (hn : full.IsName n)
include hn

theorem unquoted_present (r : List Char) :
    unquoted none ('@' :: (n ++ r)) = '@' :: (n ++ unquoted none r) := by
  rw [unquoted_cons (by decide) (by decide), hn.closed,
    unquoted_of_no_quotes (no_quotes_of_isName hn)]

theorem unquoted_demanded {u w v l : List Char} (hu : full.Blanks u) (hw : full.Blanks w)
    (hl : full.SpellsLiteral v l) (r : List Char) :
    unquoted none ('@' :: (n ++ (u ++ '=' :: (w ++ (l ++ r))))) =
      '@' :: (n ++ (u ++ '=' :: (w ++ unquoted none r))) := by
  rw [unquoted_present hn, hu.closed, unquoted_cons (by decide) (by decide), hw.closed,
    unquoted_literal hl, unquoted_of_no_quotes (no_quotes_of_blanks hu),
    unquoted_of_no_quotes (no_quotes_of_blanks hw)]

end

theorem unquoted_joint {u w : List Char} (hu : full.Blanks u) (hw : full.Blanks w)
    (r : List Char) : unquoted none (u ++ 'a' :: 'n' :: 'd' :: (w ++ r)) =
      u ++ 'a' :: 'n' :: 'd' :: (w ++ unquoted none r) := by
  rw [hu.closed, unquoted_cons (by decide) (by decide), unquoted_cons (by decide) (by decide),
    unquoted_cons (by decide) (by decide), hw.closed,
    unquoted_of_no_quotes (no_quotes_of_blanks hu), unquoted_of_no_quotes (no_quotes_of_blanks hw)]

theorem unquoted_close {w : List Char} (hw : full.Blanks w) :
    unquoted none (w ++ [']']) = w ++ [']'] := by
  rw [hw.closed, unquoted_of_no_quotes (no_quotes_of_blanks hw)]
  rfl

theorem unquoted_bracket {u : List Char} (hu : full.Blanks u) (r : List Char) :
    unquoted none ('[' :: (u ++ r)) = '[' :: (u ++ unquoted none r) := by
  rw [unquoted_cons (by decide) (by decide), hu.closed,
    unquoted_of_no_quotes (no_quotes_of_blanks hu)]

/-! ## which names run on -/

section
variable {n r : List Char} (hn : full.IsName n)
include hn

theorem runsOn_name (x : List Char) : runsOn ('@' :: (n ++ x)) =
    ((skipBlanks (x.dropWhile isNameChar)).head? == some '@' || runsOn x) := by
  have hname := isNameChar_of_isName hn
  rw [runsOn, List.dropWhile_append_of_pos hname, beq_self_eq_true, Bool.true_and,
    runsOn_append_of_not_mem (at_not_mem_nameChars hname)]

theorem runsOn_present {ks : List Comparison} (hr : SpellsEnd ks r) :
    runsOn (unquoted none ('@' :: (n ++ r))) =
      ((skipBlanks (r.dropWhile isNameChar)).head? == some '@' || runsOn (unquoted none r)) := by
  rw [unquoted_present hn, runsOn_name hn, hr.head?_unquoted]

/-- a demanded value ends the name in front of it -/
theorem runsOn_demanded {u w v l : List Char} (hu : full.Blanks u) (hw : full.Blanks w)
    (hl : full.SpellsLiteral v l) (r : List Char) :
    runsOn (unquoted none ('@' :: (n ++ (u ++ '=' :: (w ++ (l ++ r)))))) =
      runsOn (unquoted none r) := by
  have hu' : full.Blanks (u.dropWhile isNameChar) :=
    fun c hc => hu c (List.dropWhile_subset isNameChar hc)
  have hhead : (skipBlanks ((u ++ '=' :: (w ++ unquoted none r)).dropWhile isNameChar)).head? =
      some '=' := by
    rw [head?_behind_name (by decide) (by decide), skipBlanks_blanks hu']
    rfl
  have hw' : '@' ∉ '=' :: w := by
    simpa using at_not_mem_blanks hw
  rw [unquoted_demanded hn hu hw hl, runsOn_name hn, hhead,
    runsOn_append_of_not_mem (at_not_mem_blanks hu), ← List.cons_append,
    runsOn_append_of_not_mem hw']
  rfl

end

theorem runsOn_joint {u w : List Char} (hu : full.Blanks u) (hw : full.Blanks w) (r : List Char) :
    runsOn (unquoted none (u ++ 'a' :: 'n' :: 'd' :: (w ++ r))) = runsOn (unquoted none r) := by
  have hw' : '@' ∉ 'a' :: 'n' :: 'd' :: w := by
    simpa using at_not_mem_blanks hw
  rw [unquoted_joint hu hw, runsOn_append_of_not_mem (at_not_mem_blanks hu)]
  exact runsOn_append_of_not_mem hw' (unquoted none r)

theorem comparisonsIn_joint {u w : List Char} (hu : full.Blanks u) (hw : full.Blanks w)
    (r : List Char) : comparisonsIn (u ++ 'a' :: 'n' :: 'd' :: (w ++ r)) = comparisonsIn r := by
  have hw' : '@' ∉ 'a' :: 'n' :: 'd' :: w := by
    simpa using at_not_mem_blanks hw
  rw [comparisonsIn_blanks_append hu]
  exact comparisonsIn_append_of_not_mem hw' r

theorem comparisonsIn_close {w : List Char} (hw : full.Blanks w) :
    comparisonsIn (w ++ [']']) = [] := by
  rw [comparisonsIn_blanks_append hw, comparisonsIn_cons_of_ne (by decide), comparisonsIn_nil]

/-! ## what is read, and what is spelled -/

section
variable {k : Comparison} {ks : List Comparison} {c r : List Char}
  (hk : full.SpellsComparison k c)
include hk

theorem runsOn_rest (hr : SpellsEnd ks r) (hruns : runsOn (unquoted none (c ++ r)) = false) :
    runsOn (unquoted none r) = false := by
  cases hk with
  | present hn =>
    rw [List.cons_append, runsOn_present hn hr, Bool.or_eq_false_iff] at hruns
    exact hruns.2
  | demanded hn hu hw hl =>
    simp only [List.cons_append, List.append_assoc] at hruns
    rwa [runsOn_demanded hn hu hw hl] at hruns

/-- The comparison is spelled with the name that is read, if that takes no `and`. -/
theorem exists_reread (hr : SpellsEnd ks r) (hruns : runsOn (unquoted none (c ++ r)) = false) :
    ∃ k' c' r', comparisonsIn (c ++ r) = k' :: comparisonsIn r ∧ c ++ r = c' ++ r' ∧
      full.SpellsComparison k' c' ∧ SpellsEnd ks r' := by
  have hlonger : ∀ {n : List Char} (x : List Char), full.IsName n →
      full.IsName (n ++ x.takeWhile isNameChar) :=
    fun x hn => (isName_of_takeName? (takeName?_append hn x)).1
  cases hk with
  | @present n hn =>
    rw [List.cons_append, runsOn_present hn hr, Bool.or_eq_false_iff, beq_eq_false_iff_ne] at hruns
    refine ⟨_, '@' :: (n ++ r.takeWhile isNameChar), r.dropWhile isNameChar,
      comparisonsIn_present hn hr.noDemand, ?_, .present (hlonger r hn), hr.dropWhile hruns.1⟩
    rw [List.cons_append, List.cons_append, List.append_assoc, List.takeWhile_append_dropWhile]
  | @demanded n u w v l hn hu hw hl =>
    have hu' : full.Blanks (u.dropWhile isNameChar) :=
      fun c hc => hu c (List.dropWhile_subset isNameChar hc)
    simp only [List.cons_append, List.append_assoc]
    refine ⟨_, _, r, comparisonsIn_demanded hn hu hw hl r, ?_,
      .demanded (hlonger u hn) hu' hw hl, hr⟩
    simp only [List.cons_append, List.append_assoc]
    rw [← List.append_assoc (u.takeWhile isNameChar), List.takeWhile_append_dropWhile]

/-- A name that is read as it is spelled takes no `and`. -/
theorem runsOn_of_comparisonsIn (hr : SpellsEnd ks r) (h : comparisonsIn (c ++ r) = k :: ks) :
    comparisonsIn r = ks ∧
      runsOn (unquoted none (c ++ r)) = runsOn (unquoted none r) := by
  cases hk with
  | @present n hn =>
    rw [List.cons_append, comparisonsIn_present hn hr.noDemand, List.cons.injEq,
      Comparison.mk.injEq, String.ofList_inj, List.append_right_eq_self] at h
    obtain ⟨⟨hname, -⟩, hin⟩ := h
    refine ⟨hin, ?_⟩
    have hdrop : r.dropWhile isNameChar = r := by
      have hsplit := List.takeWhile_append_dropWhile (p := isNameChar) (l := r)
      rwa [hname, List.nil_append] at hsplit
    have hat := beq_eq_false_iff_ne.2 hr.head?_ne_at
    rw [List.cons_append, runsOn_present hn hr, hdrop, hat, Bool.false_or]
  | demanded hn hu hw hl =>
    simp only [List.cons_append, List.append_assoc] at h ⊢
    rw [comparisonsIn_demanded hn hu hw hl] at h
    exact ⟨(List.cons.inj h).2, runsOn_demanded hn hu hw hl r⟩

end

/-- the same demand, on an attribute with a name that may be longer -/
structure Comparison.Extends (k k' : Comparison) : Prop where
  name : k.name.toList <+: k'.name.toList
  value : k.value = k'.value

theorem exists_extends {k : Comparison} {ks : List Comparison} {c r : List Char}
    (hk : full.SpellsComparison k c) (hr : SpellsEnd ks r) :
    ∃ k', comparisonsIn (c ++ r) = k' :: comparisonsIn r ∧ k.Extends k' := by
  have hprefix : ∀ n m : List Char,
      (String.ofList n).toList <+: (String.ofList (n ++ m)).toList := by
    intro n m
    rw [String.toList_ofList, String.toList_ofList]
    exact List.prefix_append n m
  cases hk with
  | @present n hn => exact ⟨_, comparisonsIn_present hn hr.noDemand, hprefix n _, rfl⟩
  | @demanded n u w v l hn hu hw hl =>
    simp only [List.cons_append, List.append_assoc]
    exact ⟨_, comparisonsIn_demanded hn hu hw hl r, hprefix n _, rfl⟩

namespace Alphabet.SpellsEnd

variable {ks : List Comparison} {r : List Char}

theorem reread (h : SpellsEnd ks r) (hruns : runsOn (unquoted none r) = false) :
    SpellsEnd (comparisonsIn r) r := by
  induction h with
  | close hw =>
    rw [comparisonsIn_close hw]
    exact .close hw
  | @joint k ks c r u w hu hu' hw hw' hk hr ih =>
    rw [runsOn_joint hu hw] at hruns
    have hrest := ih (runsOn_rest hk hr hruns)
    obtain ⟨k', c', r', hread, htext, hk', hr'⟩ := exists_reread hk hrest hruns
    rw [comparisonsIn_joint hu hw, hread, htext]
    exact .joint hu hu' hw hw' hk' hr'

theorem not_runsOn (h : SpellsEnd ks r) (hread : comparisonsIn r = ks) :
    runsOn (unquoted none r) = false := by
  induction h with
  | @close w hw =>
    rw [unquoted_close hw, runsOn_append_of_not_mem (at_not_mem_blanks hw)]
    decide
  | joint hu _ hw _ hk hr ih =>
    rw [comparisonsIn_joint hu hw] at hread
    obtain ⟨hrest, hruns⟩ := runsOn_of_comparisonsIn hk hr hread
    rw [runsOn_joint hu hw, hruns, ih hrest]

theorem forall₂_extends (h : SpellsEnd ks r) :
    List.Forall₂ Comparison.Extends ks (comparisonsIn r) := by
  induction h with
  | close hw =>
    rw [comparisonsIn_close hw]
    exact .nil
  | joint hu _ hw _ hk hr ih =>
    obtain ⟨k', hread, hk'⟩ := exists_extends hk hr
    rw [comparisonsIn_joint hu hw, hread]
    exact .cons hk' ih

end Alphabet.SpellsEnd

/-! ## whole clauses -/

section
variable {u : List Char} (hu : full.Blanks u)
include hu

theorem comparisonsIn_bracket (r : List Char) :
    comparisonsIn ('[' :: (u ++ r)) = comparisonsIn r := by
  rw [comparisonsIn_cons_of_ne (by decide), comparisonsIn_blanks_append hu]

theorem runsOn_bracket (r : List Char) :
    runsOn (unquoted none ('[' :: (u ++ r))) = runsOn (unquoted none r) := by
  have hu' : '@' ∉ '[' :: u := by
    simpa using at_not_mem_blanks hu
  rw [unquoted_bracket hu]
  exact runsOn_append_of_not_mem hu' (unquoted none r)

end

theorem spellsClause_comparisonsIn_iff {ks : List Comparison} {t : List Char}
    (h : full.SpellsClause ks t) :
    full.SpellsClause (comparisonsIn t) t ↔ runsOn (unquoted none t) = false := by
  constructor
  · intro hread
    obtain ⟨k, rest, u, c, r, hks, hu, hk, hr, rfl⟩ := spellsClause_iff.1 hread
    rw [comparisonsIn_bracket hu] at hks
    obtain ⟨hrest, hruns⟩ := runsOn_of_comparisonsIn hk hr hks
    rw [runsOn_bracket hu, hruns, hr.not_runsOn hrest]
  · intro hruns
    obtain ⟨k, rest, u, c, r, -, hu, hk, hr, rfl⟩ := spellsClause_iff.1 h
    rw [runsOn_bracket hu] at hruns
    have hrest := hr.reread (runsOn_rest hk hr hruns)
    obtain ⟨k', c', r', hread, htext, hk', hr'⟩ := exists_reread hk hrest hruns
    rw [comparisonsIn_bracket hu, hread, htext]
    exact spellsClause_iff.2 ⟨_, _, u, c', r', rfl, hu, hk', hr', rfl⟩

theorem extends_of_spellsClause {ks : List Comparison} {t : List Char}
    (h : full.SpellsClause ks t) : List.Forall₂ Comparison.Extends ks (comparisonsIn t) := by
  obtain ⟨k, rest, u, c, r, rfl, hu, hk, hr, rfl⟩ := spellsClause_iff.1 h
  obtain ⟨k', hread, hk'⟩ := exists_extends hk hr
  rw [comparisonsIn_bracket hu, hread]
  exact .cons hk' hr.forall₂_extends

/-- **The comparisons that are read from a clause** are those of a derivation of it iff no name
runs on up to the next comparison.  In any case they are those of every derivation, in number,
order and values, with names that may be longer; and without ogham space marks outside of literals
they are those of the only derivation. -/
theorem comparisonsIn_of_matches {t : List Char} (ht : Pattern.Matches .clause t) :
    (full.SpellsClause (comparisonsIn t) t ↔ runsOn (unquoted none t) = false) ∧
    (∀ ks, full.SpellsClause ks t → List.Forall₂ Comparison.Extends ks (comparisonsIn t)) ∧
    (oghamSpace ∉ unquoted none t →
      ∀ ks, full.SpellsClause ks t ↔ ks = comparisonsIn t) := by
  obtain ⟨ks, hks⟩ := Pattern.matches_clause_iff.1 ht
  have hread : ∀ {ks}, oghamSpace ∉ unquoted none t → full.SpellsClause ks t →
      comparisonsIn t = ks := by
    intro ks hogham hks
    exact comparisonsIn_of_clause clear_unambiguous.toSeparate
      (hks.restrict (within_of_not_mem hogham))
  refine ⟨spellsClause_comparisonsIn_iff hks, fun _ => extends_of_spellsClause, ?_⟩
  intro hogham ks'
  constructor
  · intro hks'
    exact (hread hogham hks').symm
  · rintro rfl
    rwa [hread hogham hks]

theorem Pattern.matches_of_mem_rests {a : Pattern} {t : List Char} (h : [] ∈ a.rests t) :
    Matches a t := by
  obtain ⟨w, hw, rfl⟩ := mem_rests.1 h
  rwa [List.append_nil]

/-- A literal with brackets, an at sign and an `and`, and a name that takes the ogham space mark
behind it. -/
theorem comparisonsIn_of_matches_oghamSpace :
    Pattern.Matches .clause "[@a='] and @b'\u1680and @c\u1680]".toList ∧
      full.SpellsClause [⟨"a", some "] and @b"⟩, ⟨"c\u1680", none⟩]
        "[@a='] and @b'\u1680and @c\u1680]".toList := by
  have ht : Pattern.Matches .clause "[@a='] and @b'\u1680and @c\u1680]".toList :=
    Pattern.matches_of_mem_rests (by decide +kernel)
  have hread : comparisonsIn "[@a='] and @b'\u1680and @c\u1680]".toList =
      [⟨"a", some "] and @b"⟩, ⟨"c\u1680", none⟩] := by decide +kernel
  refine ⟨ht, ?_⟩
  rw [← hread]
  exact (comparisonsIn_of_matches ht).1.2 (by decide +kernel)

/-- The clause demands `a` and `b`, with an ogham space mark for a blank; but the name that is read
in place of the first one takes the mark and the `and`. -/
theorem not_spellsClause_comparisonsIn :
    ¬ ∀ t, Pattern.Matches .clause t → full.SpellsClause (comparisonsIn t) t := by
  intro h
  have ht : Pattern.Matches .clause "[@a\u1680and @b]".toList :=
    Pattern.matches_of_mem_rests (by decide +kernel)
  have hspells := h _ ht
  have hruns : runsOn (unquoted none "[@a\u1680and @b]".toList) = true := by decide
  rw [(spellsClause_comparisonsIn_iff hspells).1 hspells] at hruns
  exact absurd hruns (by simp)

end XmlPaths

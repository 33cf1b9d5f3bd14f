import XmlPaths.Proofs.Path.Lexing

/-!
# Clauses at the front of a text

A clause is found by its pattern, which may be met in several ways where ogham space marks stand
between the comparisons.  All of them end at the same place, the first closing bracket outside of
literals, so that it does not matter which one is preferred.

* `Pattern.matches_clause_iff`   the pattern of clauses describes what the grammar spells;
* `behindClause`               what follows the first closing bracket outside of literals;
* `readClause_of_clause`       a clause is read to its end;
* `readClause_cases`           a clause is read, or there is none;
* `readClause_of_head_ne`, `readClause_of_no_comparison`   nothing is read where there is no opening
                               bracket, or no comparison behind it.
-/

namespace XmlPaths

open Alphabet

namespace Pattern

/-! ## the pattern and the grammar -/

theorem matches_one_iff {p : Char → Bool} {w : List Char} :
    Matches (one p) w ↔ ∃ c, p c = true ∧ w = [c] := by
  constructor
  · intro h
    cases h with
    | one hc => exact ⟨_, hc, rfl⟩
  · rintro ⟨c, hc, rfl⟩
    exact .one hc

theorem matches_char_iff {c : Char} {w : List Char} : Matches (char c) w ↔ w = [c] := by
  simp [char, matches_one_iff]

theorem matches_seq_iff {a b : Pattern} {w : List Char} :
    Matches (seq a b) w ↔ ∃ u v, Matches a u ∧ Matches b v ∧ w = u ++ v := by
  constructor
  · intro h
    cases h with
    | seq hu hv => exact ⟨_, _, hu, hv, rfl⟩
  · rintro ⟨u, v, hu, hv, rfl⟩
    exact .seq hu hv

theorem matches_alt_iff {a b : Pattern} {w : List Char} :
    Matches (alt a b) w ↔ Matches a w ∨ Matches b w := by
  constructor
  · intro h
    cases h with
    | left h => exact .inl h
    | right h => exact .inr h
  · rintro (h | h)
    · exact .left h
    · exact .right h

theorem matches_empty_iff {w : List Char} : Matches empty w ↔ w = [] := by
  constructor
  · intro h
    cases h
    rfl
  · rintro rfl
    exact .empty

theorem matches_many_one_iff {p : Char → Bool} {w : List Char} :
    Matches (many (one p)) w ↔ ∀ c ∈ w, p c = true := by
  constructor
  · intro h
    generalize ha : many (one p) = a at h
    induction h with
    | done => simp
    | @more b u v hu hv _ ih =>
      obtain rfl : one p = b := by simpa using ha
      obtain ⟨c, hc, rfl⟩ := matches_one_iff.1 hu
      intro d hd
      rcases List.mem_append.1 hd with hd | hd
      · simp only [List.mem_singleton] at hd
        rw [hd]; exact hc
      · exact ih rfl d hd
    | empty | one | seq | left | right => cases ha
  · intro h
    induction w with
    | nil => exact .done
    | cons c w ih =>
      have hc : p c = true := h c (by simp)
      have hw := ih fun d hd => h d (List.mem_cons_of_mem _ hd)
      simpa using Matches.more (.one hc) hw

theorem matches_blanks_iff {w : List Char} : Matches blanks w ↔ full.Blanks w :=
  matches_many_one_iff

theorem matches_someBlanks_iff {w : List Char} :
    Matches someBlanks w ↔ full.Blanks w ∧ w ≠ [] := by
  rw [someBlanks, atLeastOnce, matches_seq_iff]
  constructor
  · rintro ⟨u, v, hu, hv, rfl⟩
    obtain ⟨c, hc, rfl⟩ := matches_one_iff.1 hu
    exact ⟨blanks_cons hc (matches_many_one_iff.1 hv), by simp⟩
  · rintro ⟨hw, hne⟩
    obtain ⟨c, w, rfl⟩ := List.exists_cons_of_ne_nil hne
    exact ⟨[c], w, .one (hw c (by simp)), matches_many_one_iff.2 hw.tail, rfl⟩

theorem matches_name_iff {w : List Char} : Matches name w ↔ full.IsName w := by
  rw [name, matches_seq_iff]
  constructor
  · rintro ⟨u, v, hu, hv, rfl⟩
    obtain ⟨c, hc, rfl⟩ := matches_one_iff.1 hu
    exact ⟨hc, matches_many_one_iff.1 hv⟩
  · intro h
    obtain ⟨c, cs, rfl, hc, hcs⟩ := h.exists_cons
    exact ⟨[c], cs, .one hc, matches_many_one_iff.2 hcs, rfl⟩

theorem matches_quoted_iff {q : Char} {w : List Char} :
    Matches (quoted q) w ↔ ∃ v, q ∉ v ∧ w = q :: (v ++ [q]) := by
  have hv {v : List Char} : Matches (many (one (· != q))) v ↔ q ∉ v := by
    rw [matches_many_one_iff]
    constructor
    · intro h hq
      simpa using h q hq
    · intro h c hc
      have : c ≠ q := fun e => h (e ▸ hc)
      simpa using this
  simp only [quoted, matches_seq_iff, matches_char_iff, hv]
  constructor
  · rintro ⟨_, _, rfl, ⟨v, _, hv, rfl, rfl⟩, rfl⟩
    exact ⟨v, hv, rfl⟩
  · rintro ⟨v, hv, rfl⟩
    exact ⟨[q], v ++ [q], rfl, ⟨v, [q], hv, rfl, rfl⟩, rfl⟩

theorem matches_literal_iff {w : List Char} :
    Matches literal w ↔ ∃ v, full.SpellsLiteral v w := by
  rw [literal, matches_alt_iff, matches_quoted_iff, matches_quoted_iff]
  constructor
  · rintro (⟨v, hv, rfl⟩ | ⟨v, hv, rfl⟩)
    · exact ⟨v, .intro (.inl rfl) hv fun _ _ => rfl⟩
    · exact ⟨v, .intro (.inr rfl) hv fun _ _ => rfl⟩
  · rintro ⟨v, h⟩
    cases h with
    | @intro q _ hq hv _ =>
      rcases hq with rfl | rfl
      · exact .inl ⟨v, hv, rfl⟩
      · exact .inr ⟨v, hv, rfl⟩

theorem matches_demand_iff {w : List Char} :
    Matches demand w ↔ ∃ u x v l, full.Blanks u ∧ full.Blanks x ∧ full.SpellsLiteral v l ∧
      w = u ++ '=' :: (x ++ l) := by
  simp only [demand, matches_seq_iff, matches_blanks_iff, matches_char_iff, matches_literal_iff]
  constructor
  · rintro ⟨u, _, hu, ⟨_, _, rfl, ⟨x, l, hx, ⟨v, hl⟩, rfl⟩, rfl⟩, rfl⟩
    exact ⟨u, x, v, l, hu, hx, hl, rfl⟩
  · rintro ⟨u, x, v, l, hu, hx, hl, rfl⟩
    exact ⟨u, '=' :: (x ++ l), hu, ⟨['='], x ++ l, rfl, ⟨x, l, hx, ⟨v, hl⟩, rfl⟩, rfl⟩, rfl⟩

theorem matches_comparison_iff {w : List Char} :
    Matches comparison w ↔ ∃ k, full.SpellsComparison k w := by
  simp only [comparison, opt, matches_seq_iff, matches_char_iff, matches_name_iff,
    matches_alt_iff, matches_demand_iff, matches_empty_iff]
  constructor
  · rintro ⟨_, _, rfl, ⟨n, _, hn, ⟨u, x, v, l, hu, hx, hl, rfl⟩ | rfl, rfl⟩, rfl⟩
    · exact ⟨_, .demanded hn hu hx hl⟩
    · rw [List.append_nil]
      exact ⟨_, .present hn⟩
  · rintro ⟨k, h⟩
    cases h with
    | @present n hn => exact ⟨['@'], n, rfl, ⟨n, [], hn, .inr rfl, by simp⟩, rfl⟩
    | @demanded n u x v l hn hu hx hl =>
      exact ⟨['@'], _, rfl, ⟨n, _, hn, .inl ⟨u, x, v, l, hu, hx, hl, rfl⟩, rfl⟩, rfl⟩

theorem matches_and_iff {w : List Char} :
    Matches (word ['a', 'n', 'd']) w ↔ w = ['a', 'n', 'd'] := by
  simp only [word, matches_seq_iff, matches_char_iff, matches_empty_iff]
  constructor
  · rintro ⟨_, _, rfl, ⟨_, _, rfl, ⟨_, _, rfl, rfl, rfl⟩, rfl⟩, rfl⟩
    rfl
  · rintro rfl
    exact ⟨['a'], ['n', 'd'], rfl, ⟨['n'], ['d'], rfl, ⟨['d'], [], rfl, rfl, rfl⟩, rfl⟩, rfl⟩

theorem matches_joint_iff {w : List Char} :
    Matches joint w ↔ ∃ u x k t, full.Blanks u ∧ u ≠ [] ∧ full.Blanks x ∧ x ≠ [] ∧
      full.SpellsComparison k t ∧ w = u ++ 'a' :: 'n' :: 'd' :: (x ++ t) := by
  simp only [joint, matches_seq_iff, matches_someBlanks_iff, matches_and_iff,
    matches_comparison_iff]
  constructor
  · rintro ⟨u, _, ⟨hu, hu'⟩, ⟨_, _, rfl, ⟨x, t, ⟨hx, hx'⟩, ⟨k, hk⟩, rfl⟩, rfl⟩, rfl⟩
    exact ⟨u, x, k, t, hu, hu', hx, hx', hk, rfl⟩
  · rintro ⟨u, x, k, t, hu, hu', hx, hx', hk, rfl⟩
    exact ⟨u, _, ⟨hu, hu'⟩, ⟨['a', 'n', 'd'], x ++ t, rfl, ⟨x, t, ⟨hx, hx'⟩, ⟨k, hk⟩, rfl⟩,
      rfl⟩, rfl⟩

theorem matches_joints_iff {w : List Char} :
    Matches (many joint) w ↔ ∃ ks, full.SpellsJoints ks w := by
  constructor
  · intro h
    generalize ha : many joint = a at h
    induction h with
    | done => exact ⟨[], .nil⟩
    | @more b u v hu hv _ ih =>
      obtain rfl : joint = b := by simpa using ha
      obtain ⟨y, x, k, t, hy, hy', hx, hx', hk, rfl⟩ := matches_joint_iff.1 hu
      obtain ⟨ks, hks⟩ := ih rfl
      refine ⟨k :: ks, ?_⟩
      simpa using SpellsJoints.cons hy hy' hx hx' hk hks
    | empty | one | seq | left | right => cases ha
  · rintro ⟨ks, h⟩
    induction h with
    | nil => exact .done
    | @cons k ks t ts u x hu hu' hx hx' hk hks ih =>
      have hj := matches_joint_iff.2 ⟨u, x, k, t, hu, hu', hx, hx', hk, rfl⟩
      simpa using Matches.more hj ih

theorem matches_clause_iff {w : List Char} :
    Matches clause w ↔ ∃ ks, full.SpellsClause ks w := by
  simp only [clause, matches_seq_iff, matches_char_iff, matches_blanks_iff,
    matches_comparison_iff, matches_joints_iff]
  constructor
  · rintro ⟨_, _, rfl, ⟨u, _, hu, ⟨t, _, ⟨k, hk⟩, ⟨ts, _, ⟨ks, hks⟩, ⟨x, _, hx, rfl, rfl⟩,
      rfl⟩, rfl⟩, rfl⟩, rfl⟩
    exact ⟨k :: ks, .intro hu hk hks hx⟩
  · rintro ⟨ks, h⟩
    cases h with
    | @intro k ks t ts u x hu hk hks hx =>
      exact ⟨['['], _, rfl, ⟨u, _, hu, ⟨t, _, ⟨k, hk⟩, ⟨ts, _, ⟨ks, hks⟩,
        ⟨x, [']'], hx, rfl, rfl⟩, rfl⟩, rfl⟩, rfl⟩, rfl⟩

end Pattern

/-! ## the end of a clause -/

/-- What follows the first closing bracket outside of literals; `q` is the quote of the literal
that the text begins in, if it begins in one. -/
def behindClause (q : Option Char) : List Char → Option (List Char)
  | [] => none
  | c :: cs =>
    match q with
    | none =>
      if c = ']' then some cs
      else behindClause (if c = '\'' ∨ c = '"' then some c else none) cs
    | some q => behindClause (if c = q then none else some q) cs

/-- neither a quote nor the end of a clause -/
def isInner (c : Char) : Bool := c != ']' && c != '\'' && c != '"'

theorem isInner_of_isBlank {c : Char} (h : isBlank c = true) : isInner c = true := by
  simp only [isInner, Bool.and_eq_true, bne_iff_ne, ne_eq]
  refine ⟨⟨?_, ?_⟩, ?_⟩ <;> (rintro rfl; revert h; decide)

theorem isInner_of_isNameChar {c : Char} (h : isNameChar c = true) : isInner c = true := by
  simp only [isInner, Bool.and_eq_true, bne_iff_ne, ne_eq]
  refine ⟨⟨?_, ?_⟩, ?_⟩ <;> (rintro rfl; revert h; decide)

theorem behindClause_cons {c : Char} (hc : isInner c = true) (r : List Char) :
    behindClause none (c :: r) = behindClause none r := by
  simp only [isInner, Bool.and_eq_true, bne_iff_ne, ne_eq] at hc
  simp [behindClause, hc.1.1, hc.1.2, hc.2]

theorem behindClause_append {u : List Char} (hu : ∀ c ∈ u, isInner c = true) (r : List Char) :
    behindClause none (u ++ r) = behindClause none r := by
  induction u with
  | nil => rfl
  | cons c u ih =>
    rw [List.cons_append, behindClause_cons (hu c (by simp)),
      ih fun d hd => hu d (List.mem_cons_of_mem _ hd)]

theorem behindClause_blanks {u : List Char} (hu : full.Blanks u) (r : List Char) :
    behindClause none (u ++ r) = behindClause none r :=
  behindClause_append (fun c hc => isInner_of_isBlank (hu c hc)) r

theorem behindClause_name {n : List Char} (hn : full.IsName n) (r : List Char) :
    behindClause none (n ++ r) = behindClause none r :=
  behindClause_append (fun c hc => isInner_of_isNameChar (isNameChar_of_isName hn c hc)) r

/-- inside of a literal nothing but its quote counts -/
theorem behindClause_content {q : Char} {v : List Char} (hv : q ∉ v) (r : List Char) :
    behindClause (some q) (v ++ q :: r) = behindClause none r := by
  induction v with
  | nil => simp [behindClause]
  | cons c v ih =>
    have hc : c ≠ q := fun e => hv (by simp [e])
    have hv' : q ∉ v := fun h => hv (List.mem_cons_of_mem _ h)
    simpa [behindClause, hc] using ih hv'

theorem behindClause_literal {v l : List Char} (hl : full.SpellsLiteral v l) (r : List Char) :
    behindClause none (l ++ r) = behindClause none r := by
  cases hl with
  | @intro q _ hq hv _ =>
    have hne : q ≠ ']' := by rcases hq with rfl | rfl <;> decide
    have h := behindClause_content hv r
    simp only [List.cons_append, List.append_assoc, behindClause, hne, hq, if_true, if_false]
    exact h

theorem behindClause_comparison {k : Comparison} {t : List Char}
    (hk : full.SpellsComparison k t) (r : List Char) :
    behindClause none (t ++ r) = behindClause none r := by
  cases hk with
  | present hn =>
    rw [List.cons_append, behindClause_cons (by decide), behindClause_name hn]
  | demanded hn hu hw hl =>
    simp only [List.cons_append, List.append_assoc]
    rw [behindClause_cons (by decide), behindClause_name hn, behindClause_blanks hu,
      behindClause_cons (by decide), behindClause_blanks hw, behindClause_literal hl]

theorem behindClause_joints {ks : List Comparison} {ts : List Char}
    (hks : full.SpellsJoints ks ts) (r : List Char) :
    behindClause none (ts ++ r) = behindClause none r := by
  induction hks with
  | nil => rfl
  | cons hu _ hw _ hk _ ih =>
    simp only [List.cons_append, List.append_assoc]
    rw [behindClause_blanks hu, behindClause_cons (by decide), behindClause_cons (by decide),
      behindClause_cons (by decide), behindClause_blanks hw, behindClause_comparison hk, ih]

/-- A clause ends with the first closing bracket outside of its literals. -/
theorem behindClause_clause {ks : List Comparison} {t : List Char} (h : full.SpellsClause ks t)
    (r : List Char) : behindClause none (t ++ r) = some r := by
  cases h with
  | intro hu hk hks hw =>
    simp only [List.cons_append, List.append_assoc, List.nil_append]
    rw [behindClause_cons (by decide), behindClause_blanks hu, behindClause_comparison hk,
      behindClause_joints hks, behindClause_blanks hw]
    rfl

/-! ## reading a clause -/

theorem consumed_append (u r : List Char) : consumed (u ++ r) r = u := by
  simp [consumed]

theorem matches_blanks_clause_iff {w : List Char} :
    Pattern.Matches (.seq .blanks .clause) w ↔
      ∃ u ks t, full.Blanks u ∧ full.SpellsClause ks t ∧ w = u ++ t := by
  rw [Pattern.matches_seq_iff]
  constructor
  · rintro ⟨u, t, hu, ht, rfl⟩
    obtain ⟨ks, hks⟩ := Pattern.matches_clause_iff.1 ht
    exact ⟨u, ks, t, Pattern.matches_blanks_iff.1 hu, hks, rfl⟩
  · rintro ⟨u, ks, t, hu, ht, rfl⟩
    exact ⟨u, t, Pattern.matches_blanks_iff.2 hu, Pattern.matches_clause_iff.2 ⟨ks, ht⟩, rfl⟩

/-- the preferred way to read a clause ends where every way does -/
theorem rest?_of_clause {u t : List Char} {ks : List Comparison} (hu : full.Blanks u)
    (ht : full.SpellsClause ks t) (r : List Char) :
    (Pattern.seq .blanks .clause).rest? (u ++ (t ++ r)) = some r := by
  have hm : Pattern.Matches (.seq .blanks .clause) (u ++ t) :=
    matches_blanks_clause_iff.2 ⟨u, ks, t, hu, ht, rfl⟩
  have hsome : ((Pattern.seq .blanks .clause).rest? (u ++ (t ++ r))).isSome :=
    Pattern.rest?_isSome_iff.2 ⟨u ++ t, r, hm, by simp⟩
  obtain ⟨r', hr'⟩ := Option.isSome_iff_exists.1 hsome
  obtain ⟨w, hw, hwr⟩ := Pattern.mem_rests.1 (List.mem_of_mem_head? (Option.mem_def.2 hr'))
  obtain ⟨u', ks', t', hu', ht', rfl⟩ := matches_blanks_clause_iff.1 hw
  have hend : behindClause none (u ++ (t ++ r)) = some r := by
    rw [behindClause_blanks hu, behindClause_clause ht]
  have hend' : behindClause none (u ++ (t ++ r)) = some r' := by
    rw [hwr, List.append_assoc, behindClause_blanks hu', behindClause_clause ht']
  rw [hr', ← hend', hend]

theorem readClause_of_clause {u t : List Char} {ks : List Comparison} (hu : full.Blanks u)
    (ht : full.SpellsClause ks t) (r : List Char) :
    readClause (u ++ (t ++ r)) = (comparisonsIn t, r) := by
  simp only [readClause, rest?_of_clause hu ht r]
  rw [← List.append_assoc, consumed_append, comparisonsIn_blanks_append hu]

/-- A clause is read, or there is none. -/
theorem readClause_cases (cs : List Char) :
    (∃ u ks c r, full.Blanks u ∧ full.SpellsClause ks c ∧ cs = u ++ (c ++ r) ∧
      readClause cs = (comparisonsIn c, r)) ∨
    (readClause cs = ([], cs) ∧
      ∀ u ks c r, full.Blanks u → full.SpellsClause ks c → cs ≠ u ++ (c ++ r)) := by
  cases hr : (Pattern.seq .blanks .clause).rest? cs with
  | some r =>
    obtain ⟨w, hw, rfl⟩ := Pattern.mem_rests.1 (List.mem_of_mem_head? (Option.mem_def.2 hr))
    obtain ⟨u, ks, c, hu, hc, rfl⟩ := matches_blanks_clause_iff.1 hw
    rw [List.append_assoc]
    exact .inl ⟨u, ks, c, r, hu, hc, rfl, readClause_of_clause hu hc r⟩
  | none =>
    refine .inr ⟨by simp only [readClause, hr], ?_⟩
    rintro u ks c r hu hc rfl
    rw [rest?_of_clause hu hc] at hr
    exact absurd hr (by simp)

theorem readClause_of_head_ne {r : List Char} (h : (skipBlanks r).head? ≠ some '[') :
    readClause r = ([], r) := by
  obtain ⟨u, ks, c, r', hu, hc, rfl, -⟩ | ⟨hread, -⟩ := readClause_cases r
  · cases hc
    rw [List.cons_append, skipBlanks_append_cons hu (by decide)] at h
    exact absurd rfl h
  · exact hread

/-- Nothing is read where no comparison follows the opening bracket. -/
theorem readClause_of_no_comparison {r z : List Char} (h : skipBlanks r = '[' :: z)
    (hz : (skipBlanks z).head? ≠ some '@') : readClause r = ([], r) := by
  obtain ⟨u, ks, c, r', hu, hc, rfl, -⟩ | ⟨hread, -⟩ := readClause_cases r
  · cases hc with
    | @intro k ks t ts v w hv hk hks hw =>
      obtain ⟨t', rfl⟩ : ∃ t', t = '@' :: t' := by cases hk <;> exact ⟨_, rfl⟩
      rw [List.cons_append, skipBlanks_append_cons hu (by decide), List.cons.injEq] at h
      rw [← h.2, List.append_assoc, List.cons_append, List.cons_append,
        skipBlanks_append_cons hv (by decide)] at hz
      exact absurd rfl hz
  · exact hread

/-- What is read as a clause is one, or nothing is read. -/
theorem exists_spellsDemands_of_readClause (cs : List Char) :
    ∃ ks d, full.SpellsDemands ks d ∧ cs = d ++ (readClause cs).2 := by
  obtain ⟨u, ks, c, r, hu, hc, rfl, hread⟩ | ⟨hread, -⟩ := readClause_cases cs
  · exact ⟨ks, u ++ c, .clause hu hc, by rw [hread, List.append_assoc]⟩
  · exact ⟨[], [], .absent, by rw [hread, List.nil_append]⟩

end XmlPaths

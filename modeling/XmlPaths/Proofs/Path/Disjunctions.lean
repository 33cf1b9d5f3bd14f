import XmlPaths.Proofs.Path.Comparisons
import XmlPaths.Proofs.Path.Features

/-!
# Comparisons with an `or` between them

A step to an element with comparisons in brackets, some of which are joined by an `or`, is refused.
The fault is told from the raw text up to the first closing bracket, which may be one in a literal:
disjunctive predicates, if there is an `or` between blanks; otherwise just a malformed step.

* `Joint`, `joined`         comparisons with an `and` or an `or` between them;
* `conjoined`               texts in which each at sign follows a bracket or an `and`;
* `readClause_joined`       comparisons with an `or` among them are no clause;
* `parse_of_no_clause`      a name with a bracket behind it that begins no clause;
* `parse_joined`            how comparisons with an `or` among them are refused.
-/

namespace XmlPaths

open Alphabet

/-! ## joined comparisons -/

/-- what stands between two comparisons -/
inductive Joint where
  | conjunction
  | disjunction
deriving DecidableEq

def Joint.text : Joint → List Char
  | .conjunction => [' ', 'a', 'n', 'd', ' ']
  | .disjunction => [' ', 'o', 'r', ' ']

/-- the text of a comparison and of further ones, each behind a joint -/
def joined (t : List Char) (rest : List (Joint × List Char)) : List Char :=
  t ++ rest.flatMap fun x => x.1.text ++ x.2

/-- the alphabet of path expressions without any blanks outside of literals -/
def Alphabet.tight : Alphabet := { full with blank := fun _ => false }

theorem Alphabet.separate_tight : tight.Separate where
  isBlank h := absurd h (by simp [tight])
  isNameStart h := h
  isNameChar h := h
  blank_apart h := absurd h (by simp [tight])

theorem joined_nil (t : List Char) : joined t [] = t := by
  simp [joined]

theorem joined_cons (t : List Char) (x : Joint × List Char) (rest : List (Joint × List Char)) :
    joined t (x :: rest) = t ++ (x.1.text ++ joined x.2 rest) := by
  simp [joined]

theorem joined_append_cons (t : List Char) (before : List (Joint × List Char))
    (x : Joint × List Char) (after : List (Joint × List Char)) :
    joined t (before ++ x :: after) = joined t before ++ (x.1.text ++ joined x.2 after) := by
  simp [joined]

/-- the text is a comparison without blanks outside of its literal -/
def IsTight (t : List Char) : Prop := ∃ k, tight.SpellsComparison k t

theorem IsTight.exists_spells {t : List Char} (h : IsTight t) : ∃ k, full.SpellsComparison k t := by
  obtain ⟨k, hk⟩ := h
  exact ⟨k, separate_tight.spellsComparison hk⟩

theorem IsTight.exists_cons {t : List Char} (h : IsTight t) : ∃ cs, t = '@' :: cs := by
  obtain ⟨k, hk⟩ := h
  cases hk <;> exact ⟨_, rfl⟩

theorem isTight_present {n : List Char} (hn : full.IsName n) : IsTight ('@' :: n) :=
  ⟨_, .present hn⟩

theorem isTight_demanded {n v : List Char} (hn : full.IsName n) {q : Char} (hq : q = '\'' ∨ q = '"')
    (hv : q ∉ v) : IsTight ('@' :: (n ++ '=' :: q :: (v ++ [q]))) :=
  ⟨_, .demanded hn (u := []) (w := []) blanks_nil blanks_nil (.intro hq hv fun _ _ => rfl)⟩

/-! ## clauses have an `and` before each further comparison -/

/-- Whether each at sign follows an opening bracket or the end of an `and`, no matter which blanks
are in between; `last` is the last character in front of the text that is no blank. -/
def conjoined (last : Char) : List Char → Bool
  | [] => true
  | c :: cs =>
    (c != '@' || last == '[' || last == 'd') && conjoined (if isBlank c then last else c) cs

theorem conjoined_blanks {u : List Char} (hu : full.Blanks u) (last : Char) (r : List Char) :
    conjoined last (u ++ r) = conjoined last r := by
  induction u with
  | nil => rfl
  | cons c u ih =>
    have hc : isBlank c = true := hu c List.mem_cons_self
    have hne : (c != '@') = true := bne_iff_ne.2 fun e => at_not_mem_blanks hu (by simp [e])
    rw [List.cons_append, conjoined, hne, if_pos hc, ih hu.tail]
    rfl

theorem conjoined_append_of_not_mem {a : List Char} (ha : '@' ∉ a) {r : List Char}
    (hr : ∀ last, conjoined last r = true) (last : Char) : conjoined last (a ++ r) = true := by
  induction a generalizing last with
  | nil => exact hr last
  | cons c a ih =>
    have hne : (c != '@') = true := bne_iff_ne.2 fun e => ha (by simp [e])
    rw [List.cons_append, conjoined, hne, ih fun h => ha (List.mem_cons_of_mem _ h)]
    rfl

/-- an at sign behind an `or` -/
theorem conjoined_disjunction (last : Char) (a r : List Char) :
    conjoined last (a ++ (Joint.disjunction.text ++ '@' :: r)) = false := by
  induction a generalizing last with
  | nil => rfl
  | cons c a ih => rw [List.cons_append, conjoined, ih, Bool.and_false]

theorem conjoined_comparison {k : Comparison} {c r : List Char} {last : Char}
    (hk : full.SpellsComparison k c) (hlast : last = '[' ∨ last = 'd')
    (hr : ∀ last, conjoined last (unquoted none r) = true) :
    conjoined last (unquoted none (c ++ r)) = true := by
  have hfirst : ∀ x, (∀ last, conjoined last x = true) → conjoined last ('@' :: x) = true := by
    intro x hx
    rw [conjoined, hx]
    rcases hlast with rfl | rfl <;> rfl
  cases hk with
  | present hn =>
    rw [List.cons_append, unquoted_present hn]
    apply hfirst
    exact conjoined_append_of_not_mem (at_not_mem_nameChars (isNameChar_of_isName hn)) hr
  | @demanded n u w v l hn hu hw hl =>
    have hw' : '@' ∉ '=' :: w := by
      simpa using at_not_mem_blanks hw
    have hnot : '@' ∉ n ++ (u ++ '=' :: w) := by
      rw [List.mem_append, List.mem_append, not_or, not_or]
      exact ⟨at_not_mem_nameChars (isNameChar_of_isName hn), at_not_mem_blanks hu, hw'⟩
    simp only [List.cons_append, List.append_assoc]
    rw [unquoted_demanded hn hu hw hl]
    apply hfirst
    have h := conjoined_append_of_not_mem hnot hr
    simpa only [List.append_assoc, List.cons_append] using h

theorem Alphabet.SpellsEnd.conjoined {ks : List Comparison} {r : List Char} (h : SpellsEnd ks r)
    (last : Char) : conjoined last (unquoted none r) = true := by
  induction h generalizing last with
  | close hw =>
    rw [unquoted_close hw, conjoined_blanks hw]
    rfl
  | @joint k ks c r u w hu _ hw _ hk _ ih =>
    rw [unquoted_joint hu hw, conjoined_blanks hu]
    show XmlPaths.conjoined 'd' (w ++ unquoted none (c ++ r)) = true
    rw [conjoined_blanks hw]
    exact conjoined_comparison hk (.inr rfl) ih

theorem conjoined_of_spellsClause {ks : List Comparison} {t : List Char}
    (h : full.SpellsClause ks t) (last : Char) : conjoined last (unquoted none t) = true := by
  obtain ⟨k, rest, u, c, r, -, hu, hk, hr, rfl⟩ := spellsClause_iff.1 h
  rw [unquoted_bracket hu]
  show conjoined '[' (u ++ unquoted none (c ++ r)) = true
  rw [conjoined_blanks hu]
  exact conjoined_comparison hk (.inl rfl) hr.conjoined

/-! ## comparisons with an `or` among them are no clause -/

theorem Joint.no_quotes (j : Joint) : ∀ c ∈ j.text, c ≠ '\'' ∧ c ≠ '"' := by
  cases j <;> simp [text]

theorem Joint.isInner (j : Joint) : ∀ c ∈ j.text, isInner c = true := by
  cases j <;> simp [text, XmlPaths.isInner]

section
variable {t : List Char} {rest : List (Joint × List Char)} (ht : IsTight t)
  (hrest : ∀ x ∈ rest, IsTight x.2)
include ht hrest

theorem closed_joined : Closed (joined t rest) := by
  obtain ⟨k, hk⟩ := ht.exists_spells
  induction rest generalizing t k with
  | nil =>
    rw [joined_nil]
    exact hk.closed
  | cons x rest ih =>
    have hx := hrest x List.mem_cons_self
    obtain ⟨k', hk'⟩ := hx.exists_spells
    have hjoined := ih hx (fun y hy => hrest y (List.mem_cons_of_mem _ hy)) k' hk'
    rw [joined_cons]
    exact hk.closed.append ((closed_of_no_quotes x.1.no_quotes).append hjoined)

theorem behindClause_joined (r : List Char) :
    behindClause none (joined t rest ++ r) = behindClause none r := by
  obtain ⟨k, hk⟩ := ht.exists_spells
  induction rest generalizing t k with
  | nil => rw [joined_nil, behindClause_comparison hk]
  | cons x rest ih =>
    have hx := hrest x List.mem_cons_self
    obtain ⟨k', hk'⟩ := hx.exists_spells
    rw [joined_cons, List.append_assoc, behindClause_comparison hk, List.append_assoc,
      behindClause_append x.1.isInner]
    exact ih hx (fun y hy => hrest y (List.mem_cons_of_mem _ hy)) k' hk'

theorem not_conjoined_joined (hor : .disjunction ∈ rest.map Prod.fst) (last : Char) :
    conjoined last (unquoted none ('[' :: (joined t rest ++ [']']))) = false := by
  obtain ⟨⟨j, t'⟩, hmem, rfl⟩ := List.mem_map.1 hor
  obtain ⟨before, after, rfl⟩ := List.append_of_mem hmem
  obtain ⟨cs, rfl⟩ := (hrest _ hmem).exists_cons
  have hbefore : Closed ('[' :: joined t before) :=
    (closed_joined ht fun x hx => hrest x (by simp [hx])).cons (by decide) (by decide)
  have hor : Closed Joint.disjunction.text := closed_of_no_quotes Joint.disjunction.no_quotes
  have htext : '[' :: (joined t (before ++ (.disjunction, '@' :: cs) :: after) ++ [']']) =
      ('[' :: joined t before) ++ (Joint.disjunction.text ++ '@' ::
        (joined cs after ++ [']'])) := by
    rw [joined_append_cons]
    simp [joined]
  rw [htext, hbefore, hor, unquoted_of_no_quotes Joint.disjunction.no_quotes,
    unquoted_cons (by decide) (by decide)]
  exact conjoined_disjunction last _ _

/-- **No clause is read** from comparisons in brackets with an `or` among them. -/
theorem readClause_joined (hor : .disjunction ∈ rest.map Prod.fst) :
    readClause ('[' :: (joined t rest ++ [']'])) = ([], '[' :: (joined t rest ++ [']'])) := by
  obtain ⟨u, ks, c, r, hu, hc, htext, -⟩ | ⟨hread, -⟩ :=
    readClause_cases ('[' :: (joined t rest ++ [']']))
  · -- such a clause would end with the last bracket
    have hend : behindClause none ('[' :: (joined t rest ++ [']'])) = some [] := by
      rw [behindClause_cons (by decide), behindClause_joined ht hrest]
      rfl
    have hend' : behindClause none ('[' :: (joined t rest ++ [']'])) = some r := by
      rw [htext, behindClause_blanks hu, behindClause_clause hc]
    obtain rfl : r = [] := Option.some.inj (hend'.symm.trans hend)
    have hfalse := not_conjoined_joined ht hrest hor '['
    rw [htext, List.append_nil, hu.closed, unquoted_of_no_quotes (no_quotes_of_blanks hu),
      conjoined_blanks hu, conjoined_of_spellsClause hc] at hfalse
    exact absurd hfalse (by simp)
  · exact hread

end

/-! ## a name with a bracket behind it that begins no clause -/

section
variable {n z : List Char} (hn : full.IsName n)
include hn

/-- In front of the bracket no feature is detected, unless the name is blank. -/
theorem detect?_name_bracket : Feature.detect? (n ++ '[' :: z) = none ∨
    skipBlanks (n ++ '[' :: z) = '[' :: z := by
  obtain ⟨u, hu, hsplit⟩ := exists_blanks_append n
  have hstop := stops_skipBlanks n
  have hname := isNameChar_of_isName hn
  cases hm : skipBlanks n with
  | nil =>
    right
    rw [hsplit, hm, List.append_nil, skipBlanks_append_cons hu (by decide)]
  | cons c m =>
    left
    rw [hm] at hsplit hstop
    have hm' : ∀ d ∈ c :: m, isNameChar d = true := by
      intro d hd
      apply hname
      rw [hsplit]
      exact List.mem_append_right u hd
    have hskip : skipBlanks ('[' :: z) = '[' :: z := skipBlanks_of_stops (stops_cons.2 (by decide))
    have hz : Feature.Unmarked ('[' :: z) := by
      apply Feature.unmarked_of_head <;> rw [hskip] <;> simp
    rw [hsplit, List.append_assoc, Feature.detect?_blanks_append hu]
    exact Feature.detect?_name hm' (stops_cons.1 hstop) hz (stops_cons.2 (by decide +kernel))

theorem skipBlanks_name_bracket : (skipBlanks (n ++ '[' :: z)).head? ≠ some '/' := by
  obtain h | ⟨c, r, hc, h⟩ := Feature.skipBlanks_name_append (isNameChar_of_isName hn) ('[' :: z)
  · rw [h, skipBlanks_of_stops (stops_cons.2 (by decide))]
    simp
  · rw [h]
    intro hslash
    obtain rfl : c = '/' := by simpa using hslash
    exact absurd hc (by decide)

/-- The place of the fault is the bracket in any case. -/
theorem diagnose_name_bracket {rest : List Char} (hrest : skipBlanks rest = '[' :: z) :
    diagnose rest [n ++ '[' :: z, rest] = (match Feature.detect? ('[' :: z) with
      | some f => .unsupported f
      | none => .malformed .unknownStep, '[' :: z) := by
  have hskip : skipBlanks ('[' :: z) = '[' :: z := skipBlanks_of_stops (stops_cons.2 (by decide))
  have hsame : ∀ {cs}, skipBlanks cs = '[' :: z →
      Feature.detect? cs = Feature.detect? ('[' :: z) := by
    intro cs hcs
    unfold Feature.detect?
    rw [hcs, hskip]
  have hend : Feature.detect? rest = Feature.detect? ('[' :: z) := hsame hrest
  cases hf : Feature.detect? ('[' :: z) with
  | some f =>
    rw [hf] at hend
    obtain hstart | hstart := detect?_name_bracket (z := z) hn
    · rw [diagnose_of_not_detect hstart, diagnose_of_detect hend, hrest]
    · rw [diagnose_of_detect ((hsame hstart).trans hf), hstart]
  | none =>
    rw [hf] at hend
    have hstart : Feature.detect? (n ++ '[' :: z) = none := by
      obtain hstart | hstart := detect?_name_bracket (z := z) hn
      · exact hstart
      · exact (hsame hstart).trans hf
    rw [diagnose_of_not_detect hstart, diagnose_of_not_detect hend, diagnose, hrest]

variable (hz : readClause ('[' :: z) = ([], '[' :: z))
include hz

theorem exists_readStep?_no_clause : ∃ s rest,
    readStep? (n ++ '[' :: z) = some (s, rest) ∧ skipBlanks rest = '[' :: z := by
  have hskip : skipBlanks ('[' :: z) = '[' :: z := skipBlanks_of_stops (stops_cons.2 (by decide))
  have hstop : Stops isNameChar ('[' :: z) := stops_cons.2 (by decide)
  have hnone : readStep? ('[' :: z) = none := by
    rw [readStep?_of_not_blank (by decide), readBareStep?_of_not_start (by decide) (by decide)]
  have hbare : ∀ n, full.IsName n → ∃ e r', readBareStep? (n ++ '[' :: z) = some (.element e, r') ∧
      skipBlanks r' = skipBlanks ('[' :: z) := by
    intro n hn
    have hread := readName?_bare hn (z := '[' :: z) (by rw [dropWhile_of_stops hstop]; simp)
    rw [dropWhile_of_stops hstop] at hread
    refine ⟨_, _, readBareStep?_of_name hread, ?_⟩
    rw [hz]
  obtain ⟨s, rest, hread, -, hrest⟩ := exists_readStep?_of_isName hn hbare fun s r h =>
    absurd (hnone.symm.trans h) (by simp)
  exact ⟨s, rest, hread, hrest.trans hskip⟩

/-- A name with a bracket behind it that begins no clause is refused at the bracket, for the
feature that begins there, if one does. -/
theorem parse_of_no_clause {e : String} (he : e.toList = n ++ '[' :: z) :
    Path.parse e = .error (match Feature.detect? ('[' :: z) with
      | some f => .unsupported e n.length f
      | none => .malformed e n.length .unknownStep) := by
  obtain ⟨s, rest, hread, hrest⟩ := exists_readStep?_no_clause hn hz
  have hrefuses : Refuses e.toList (diagnose rest [e.toList, rest]) := by
    rw [he]
    exact .noSlash hread hrest (by decide)
  have hslash : (skipBlanks e.toList).head? ≠ some '/' := by
    rw [he]
    exact skipBlanks_name_bracket hn
  have hposition : e.toList.length - ('[' :: z).length = n.length := by
    rw [he, List.length_append]
    omega
  rw [parse_of_refuses hslash hrefuses, he, diagnose_name_bracket hn hrest]
  cases Feature.detect? ('[' :: z) with
  | some f => rw [Fault.toError, hposition]
  | none => rw [Fault.toError, hposition]

end

/-! ## comparisons with an `or` among them -/

section
variable {t : List Char} {rest : List (Joint × List Char)}

theorem detect?_joined (ht : IsTight t) : Feature.detect? ('[' :: (joined t rest ++ [']'])) =
    if Feature.hasSpacedOr ((joined t rest).takeWhile (· != ']')) then some .disjunctivePredicate
    else none := by
  obtain ⟨cs, hcs⟩ : ∃ cs, joined t rest ++ [']'] = '@' :: cs := by
    obtain ⟨cs, rfl⟩ := ht.exists_cons
    exact ⟨_, rfl⟩
  have hskip : skipBlanks (joined t rest ++ [']']) = '@' :: cs := by
    rw [hcs, skipBlanks_of_stops (stops_cons.2 (by decide))]
  have hat : isDecimal '@' = false := by decide +kernel
  have hfront : (joined t rest ++ [']']).takeWhile (· != ']') =
      (joined t rest).takeWhile (· != ']') :=
    takeWhile_append_of_stops _ (stops_cons.2 (by decide))
  rw [Feature.detect?_bracket, hskip, List.head?_cons, Option.any_some, hat, if_neg (by simp),
    hfront]

/-- The `or` of a disjunction is found, if there is no closing bracket in front of it. -/
theorem spacedOr_of_not_mem {before after : List (Joint × List Char)} {u : List Char}
    (hrest : rest = before ++ (.disjunction, u) :: after) (hbracket : ']' ∉ joined t before) :
    Feature.SpacedOr ((joined t rest).takeWhile (· != ']')) := by
  have hall : ∀ c ∈ joined t before, (c != ']') = true :=
    fun c hc => bne_iff_ne.2 fun h => hbracket (h ▸ hc)
  refine ⟨joined t before, ' ', ' ', (joined u after).takeWhile (· != ']'), ?_, by decide,
    by decide⟩
  rw [hrest, joined_append_cons, List.takeWhile_append_of_pos hall]
  rfl

end

/-- **Comparisons with an `or` among them.**  A step to an element with such comparisons is refused
at the bracket: for its disjunctive predicates, if there is an `or` between blanks in front of the
first closing bracket, and as a malformed step otherwise.  There is one if no comparison in front
of a disjunction has a closing bracket in its literal. -/
theorem parse_joined {n t : List Char} {rest : List (Joint × List Char)} (hn : full.IsName n)
    (ht : IsTight t) (hrest : ∀ x ∈ rest, IsTight x.2)
    (hor : .disjunction ∈ rest.map Prod.fst) {e : String}
    (he : e.toList = n ++ '[' :: (joined t rest ++ [']'])) :
    (Feature.SpacedOr ((joined t rest).takeWhile (· != ']')) →
      RefusedFor e n.length .disjunctivePredicate "Disjunctive predicates") ∧
    (¬ Feature.SpacedOr ((joined t rest).takeWhile (· != ']')) →
      Path.parse e = .error (.malformed e n.length .unknownStep)) ∧
    ∀ before u after, rest = before ++ (.disjunction, u) :: after → ']' ∉ joined t before →
      Feature.SpacedOr ((joined t rest).takeWhile (· != ']')) := by
  have hparse := parse_of_no_clause hn (readClause_joined ht hrest hor) he
  rw [detect?_joined ht] at hparse
  refine ⟨fun h => ?_, fun h => ?_, fun _ _ _ => spacedOr_of_not_mem⟩
  · rw [if_pos (Feature.hasSpacedOr_iff.2 h)] at hparse
    exact ⟨hparse, rfl⟩
  · rw [if_neg fun hfound => h (Feature.hasSpacedOr_iff.1 hfound)] at hparse
    exact hparse

theorem isName_singleton {c : Char} (hc : isNameStart c = true) : full.IsName [c] :=
  ⟨hc, fun _ hd => absurd hd (by simp)⟩

/-- A closing bracket in the literal behind the `or` only. -/
theorem parse_joined_bracket :
    full.IsName ['a'] ∧ IsTight "@b".toList ∧
      (∀ x ∈ [(Joint.conjunction, "@c=\"'\"".toList), (.disjunction, "@d=']'".toList)],
        IsTight x.2) ∧
      RefusedFor "a[@b and @c=\"'\" or @d=']']" 1 .disjunctivePredicate
        "Disjunctive predicates" := by
  have ha : full.IsName ['a'] := isName_singleton (by decide)
  have ht : IsTight "@b".toList := isTight_present (n := ['b']) (isName_singleton (by decide))
  have hc : IsTight "@c=\"'\"".toList :=
    isTight_demanded (n := ['c']) (v := ['\'']) (isName_singleton (by decide)) (.inr rfl)
      (by decide)
  have hd : IsTight "@d=']'".toList :=
    isTight_demanded (n := ['d']) (v := [']']) (isName_singleton (by decide)) (.inl rfl) (by decide)
  have hrest : ∀ x ∈ [(Joint.conjunction, "@c=\"'\"".toList), (.disjunction, "@d=']'".toList)],
      IsTight x.2 := by
    intro x hx
    simp only [List.mem_cons, List.not_mem_nil, or_false] at hx
    rcases hx with rfl | rfl
    · exact hc
    · exact hd
  obtain ⟨hfound, -, hspaced⟩ := parse_joined (e := "a[@b and @c=\"'\" or @d=']']") ha ht hrest
    (by decide) (by decide)
  refine ⟨ha, ht, hrest, hfound (hspaced [(.conjunction, _)] _ [] rfl ?_)⟩
  decide

/-- With a closing bracket in a literal in front of the `or`, a malformed step is all that is
noticed. -/
theorem not_refusedFor_joined :
    ¬ ∀ (n t : List Char) (rest : List (Joint × List Char)), full.IsName n → IsTight t →
      (∀ x ∈ rest, IsTight x.2) → .disjunction ∈ rest.map Prod.fst →
      ∃ position description, RefusedFor (String.ofList (n ++ '[' :: (joined t rest ++ [']'])))
        position .disjunctivePredicate description := by
  intro h
  have hb : IsTight "@b=']'".toList :=
    isTight_demanded (n := ['b']) (v := [']']) (isName_singleton (by decide)) (.inl rfl) (by decide)
  have hc : IsTight "@c".toList := isTight_present (n := ['c']) (isName_singleton (by decide))
  obtain ⟨position, description, hrefused, -⟩ := h ['a'] _ [(.disjunction, "@c".toList)]
    (isName_singleton (by decide)) hb (by simpa using hc) (by decide)
  have hparse : Path.parse "a[@b=']' or @c]" =
      .error (.malformed "a[@b=']' or @c]" 1 .unknownStep) := by decide +kernel
  have htext : String.ofList (['a'] ++ '[' :: (joined "@b=']'".toList
      [(.disjunction, "@c".toList)] ++ [']'])) = "a[@b=']' or @c]" := by decide
  rw [htext, hparse] at hrefused
  exact absurd hrefused (by simp)

end XmlPaths

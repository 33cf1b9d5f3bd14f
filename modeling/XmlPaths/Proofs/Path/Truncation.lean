import XmlPaths.Proofs.Path.Rendering

/-!
# Truncated expressions

A reader goes as far as it can.  It can't go farther when the text that it leaves is cut off: it
takes the same from the text before the cut.  So a path that is cut off behind one of its steps is
read as the steps up to there.

* `takeName?_of_append`, `readClause_of_append`, `readStep?_of_append`   a reader leaves `r ++ t`
  of a text that ends with `t`, then it leaves `r` of the text without `t`;
* `exists_readSegments_take`   the first segments of a text are the segments of its beginning;
* `parse_take`                 the beginnings of a path are read as its first segments.
-/

namespace XmlPaths

open Alphabet

/-! ### names -/

theorem stops_of_append {p : Char → Bool} {r t : List Char} (h : Stops p (r ++ t)) : Stops p r := by
  cases r with
  | nil => exact stops_nil
  | cons c r => exact stops_cons.2 (stops_cons.1 h)

theorem stops_of_takeName? {cs n r : List Char} (h : takeName? cs = some (n, r)) :
    Stops isNameChar r := by
  obtain ⟨hn, rfl⟩ := isName_of_takeName? h
  rw [takeName?_append hn, Option.some.injEq, Prod.mk.injEq] at h
  rw [← h.2]
  exact stops_dropWhile r

theorem takeName?_of_append {cs n r t : List Char} (h : takeName? (cs ++ t) = some (n, r ++ t)) :
    takeName? cs = some (n, r) := by
  obtain ⟨hn, he⟩ := isName_of_takeName? h
  rw [← List.append_assoc] at he
  obtain rfl := List.append_cancel_right he
  exact takeName?_append_of_stops hn (stops_of_append (stops_of_takeName? h))

theorem takeName?_eq_none_of_append {cs t : List Char} (h : takeName? (cs ++ t) = none) :
    takeName? cs = none := by
  cases cs with
  | nil => rfl
  | cons c cs =>
    cases hc : isNameStart c with
    | false => exact takeName?_of_not_start hc cs
    | true => simp [takeName?, hc] at h

theorem readName?_of_colon {cs n z l r : List Char} (hn : takeName? cs = some (n, ':' :: z))
    (hl : takeName? z = some (l, r)) :
    readName? cs = some ((some (String.ofList n), String.ofList l), r) := by
  simp only [readName?, hn, hl]

theorem readName?_of_not_colon {cs n r : List Char} (hn : takeName? cs = some (n, r))
    (hr : ∀ z, r = ':' :: z → takeName? z = none) :
    readName? cs = some ((none, String.ofList n), r) := by
  simp only [readName?, hn]
  split
  · next h => exact absurd h (by simp)
  · next z h =>
    rw [Option.some.injEq, Prod.mk.injEq] at h
    rw [hr _ h.2, h.1, h.2]
  · next h =>
    rw [Option.some.injEq, Prod.mk.injEq] at h
    rw [h.1, h.2]

theorem readName?_of_append {cs r t : List Char} {x : Option String × String}
    (h : readName? (cs ++ t) = some (x, r ++ t)) : readName? cs = some (x, r) := by
  obtain ⟨n, z, l, hn, hl, rfl⟩ | ⟨n, hn, hr, rfl⟩ := readName?_cases h
  · obtain ⟨-, rfl⟩ := isName_of_takeName? hl
    rw [← List.append_assoc] at hl
    rw [← List.append_assoc, ← List.cons_append] at hn
    exact readName?_of_colon (takeName?_of_append hn) (takeName?_of_append hl)
  · refine readName?_of_not_colon (takeName?_of_append hn) fun z hz => ?_
    exact takeName?_eq_none_of_append (hr (z ++ t) (by rw [hz, List.cons_append]))

/-! ### clauses -/

theorem readClause_of_append {cs r t : List Char} {ks : List Comparison}
    (h : readClause (cs ++ t) = (ks, r ++ t)) : readClause cs = (ks, r) := by
  obtain ⟨u, ks', c, r', hu, hc, he, hread⟩ | ⟨hread, hne⟩ := readClause_cases (cs ++ t)
  · rw [hread, Prod.mk.injEq] at h
    obtain ⟨rfl, rfl⟩ := h
    rw [← List.append_assoc, ← List.append_assoc] at he
    obtain rfl := List.append_cancel_right he
    rw [List.append_assoc, readClause_of_clause hu hc]
  · rw [hread, Prod.mk.injEq] at h
    obtain ⟨rfl, hr⟩ := h
    obtain rfl := List.append_cancel_right hr
    obtain ⟨u, ks', c, r', hu, hc, rfl, -⟩ | ⟨hread', -⟩ := readClause_cases cs
    · exact absurd (by simp) (hne u ks' c (r' ++ t) hu hc)
    · exact hread'

/-! ### steps -/

theorem readBareStep?_of_append {cs r t : List Char} {s : Step}
    (h : readBareStep? (cs ++ t) = some (s, r ++ t)) : readBareStep? cs = some (s, r) := by
  cases cs with
  | nil =>
    have hlt := length_lt_of_readBareStep? h
    rw [List.length_append, List.nil_append] at hlt
    omega
  | cons c cs =>
    obtain ⟨z, n, hz, hn, rfl⟩ | ⟨p, l, z, hn, rfl, hr⟩ := readBareStep?_cases h
    · rw [List.cons_append, List.cons.injEq] at hz
      obtain ⟨rfl, rfl⟩ := hz
      simp only [readBareStep?, takeName?_of_append hn, Option.map_some]
    · have hk : readClause z = ((readClause z).1, r ++ t) := by rw [hr]
      obtain ⟨ks, d, -, hd⟩ := exists_spellsDemands_of_readClause z
      rw [← hr, ← List.append_assoc] at hd
      rw [hd] at hn hk
      rw [readBareStep?_of_name (readName?_of_append hn), readClause_of_append hk, hd]

theorem readBareStep?_eq_none_of_append {cs t : List Char} (h : readBareStep? (cs ++ t) = none) :
    readBareStep? cs = none := by
  cases cs with
  | nil => rfl
  | cons c cs =>
    by_cases hc : c = '@'
    · subst hc
      have hn : takeName? (cs ++ t) = none := Option.map_eq_none_iff.1 h
      simp only [readBareStep?, takeName?_eq_none_of_append hn, Option.map_none]
    · cases hstart : isNameStart c with
      | false => exact readBareStep?_of_not_start hstart hc cs
      | true => exact absurd h (readBareStep?_ne_none_of_start hstart (cs ++ t))

/-- A step is found in any longer text, though perhaps another one. -/
theorem readStep?_eq_none_of_append {cs t : List Char} (h : readStep? (cs ++ t) = none) :
    readStep? cs = none := by
  induction cs with
  | nil => rfl
  | cons c cs ih =>
    rw [List.cons_append, readStep?_cons, Option.or_eq_none_iff] at h
    rw [readStep?_cons, Option.or_eq_none_iff]
    refine ⟨?_, readBareStep?_eq_none_of_append h.2⟩
    by_cases hb : isBlank c = true
    · rw [if_pos hb] at h ⊢
      exact ih h.1
    · rw [if_neg hb]

theorem readStep?_of_append {cs r t : List Char} {s : Step}
    (h : readStep? (cs ++ t) = some (s, r ++ t)) : readStep? cs = some (s, r) := by
  induction cs with
  | nil =>
    have hlt := length_lt_of_readStep? h
    rw [List.length_append, List.nil_append] at hlt
    omega
  | cons c cs ih =>
    rw [List.cons_append, readStep?_cons, Option.or_eq_some_iff] at h
    rw [readStep?_cons, Option.or_eq_some_iff]
    by_cases hb : isBlank c = true
    · rw [if_pos hb] at h ⊢
      obtain h | ⟨hnone, h⟩ := h
      · exact .inl (ih h)
      · exact .inr ⟨readStep?_eq_none_of_append hnone, readBareStep?_of_append h⟩
    · rw [if_neg hb] at h ⊢
      obtain h | ⟨-, h⟩ := h
      · exact absurd h (by simp)
      · exact .inr ⟨rfl, readBareStep?_of_append h⟩

/-! ### segments -/

/-- A step that is found behind `x` ends a beginning of the text, and is the step of what the text
is up to any later place. -/
theorem exists_readStep?_cut {x cs rest : List Char} {s : Step}
    (h : readStep? cs = some (s, rest)) :
    ∃ d, cs = d ++ rest ∧ consumed (x ++ cs) rest = x ++ d ∧
      ∀ r t, rest = r ++ t → readStep? (d ++ r) = some (s, r) := by
  obtain ⟨u, s', c, -, -, rfl, -⟩ := exists_spellsStep_of_readStep? h
  refine ⟨u ++ c, by rw [List.append_assoc], ?_, ?_⟩
  · have hsource := consumed_append (x ++ (u ++ c)) rest
    simpa only [List.append_assoc] using hsource
  · rintro r t rfl
    refine readStep?_of_append (t := t) ?_
    rw [← h]
    simp only [List.append_assoc]

theorem readSegments_cut {x d : List Char} {s : Step} (h : readStep? (d ++ []) = some (s, [])) :
    readSegments (x ++ d) d = .ok [⟨String.ofList (x ++ d), s⟩] := by
  have hsource := consumed_append (x ++ d) []
  rw [List.append_nil] at hsource h
  rw [readSegments_last h skipBlanks_nil, hsource]

/-- The first segments of a text are the segments of a beginning of the text.  Before the text
stands `x`, which begins with the separator. -/
theorem exists_readSegments_take {source cs : List Char} {segs : List Segment}
    (h : readSegments source cs = .ok segs) {x : List Char} (hx : source = x ++ cs)
    {pre post : List Segment} (hsegs : segs = pre ++ post) (hpre : pre ≠ []) :
    ∃ w t, cs = w ++ t ∧ x ++ w = pre.flatMap (fun s => s.source.toList) ∧
      readSegments (x ++ w) w = .ok pre ∧ (post = [] → full.Blanks t) := by
  rw [readSegments_ok_iff] at h
  induction h generalizing x pre with
  | @last source cs rest s hs hend =>
    obtain ⟨d, hcs, hsource, hcut⟩ := exists_readStep?_cut (x := x) hs
    rw [← hx] at hsource
    obtain ⟨v, hv, hrest⟩ := exists_blanks_append rest
    rw [hend, List.append_nil] at hrest
    obtain ⟨segment, pre, rfl⟩ := List.exists_cons_of_ne_nil hpre
    rw [hsource, List.cons_append, List.cons.injEq] at hsegs
    obtain ⟨rfl, hnil⟩ := hsegs
    obtain rfl : pre = [] := (List.append_eq_nil_iff.1 hnil.symm).1
    refine ⟨d, rest, hcs, ?_, readSegments_cut (hcut [] rest rfl), fun _ => hrest ▸ hv⟩
    rw [List.flatMap_singleton, String.toList_ofList]
  | @more source cs rest next s segs hs hslash helement hmore ih =>
    obtain ⟨d, hcs, hsource, hcut⟩ := exists_readStep?_cut (x := x) hs
    rw [← hx] at hsource
    obtain ⟨segment, pre, rfl⟩ := List.exists_cons_of_ne_nil hpre
    rw [hsource, List.cons_append, List.cons.injEq] at hsegs
    obtain ⟨rfl, hsegs⟩ := hsegs
    cases pre with
    | nil =>
      have hne : segs ≠ [] := by cases hmore <;> simp
      refine ⟨d, rest, hcs, ?_, readSegments_cut (hcut [] rest rfl),
        fun hpost => absurd (hsegs.trans hpost) hne⟩
      rw [List.flatMap_singleton, String.toList_ofList]
    | cons segment' pre =>
      obtain ⟨v, hv, hrest⟩ := exists_blanks_append rest
      rw [hslash] at hrest
      obtain ⟨w, t, hnext, hw, hread, ht⟩ :=
        ih (x := v ++ ['/']) (by simpa using hrest) hsegs (by simp)
      have hrest' : rest = (v ++ '/' :: w) ++ t := by
        rw [hrest, hnext, List.append_assoc, List.cons_append]
      have hread' : readSegments (v ++ '/' :: w) w = .ok (segment' :: pre) := by
        rw [← hread, List.append_assoc, List.singleton_append]
      refine ⟨d ++ (v ++ '/' :: w), t, ?_, ?_, ?_, ht⟩
      · rw [hcs, hrest', List.append_assoc d]
      · rw [List.flatMap_cons, ← hw, String.toList_ofList]
        simp only [List.append_assoc, List.singleton_append]
      · rw [readSegments_more (hcut _ t hrest') (skipBlanks_slash hv w) helement, hread',
          ← List.append_assoc, consumed_append]
        rfl

/-! ### beginnings -/

theorem head?_skipBlanks_append {w : List Char} {c : Char} (h : (skipBlanks w).head? = some c)
    (t : List Char) : (skipBlanks (w ++ t)).head? = some c := by
  obtain ⟨r, hr⟩ := List.head?_eq_some_iff.1 h
  obtain ⟨u, hu, hw⟩ := exists_blanks_append w
  have hstop : Stops isBlank (skipBlanks w ++ t) := by
    rw [hr]
    exact stops_cons.2 (stops_cons.1 (hr ▸ stops_skipBlanks w))
  rw [hw, List.append_assoc, skipBlanks_append hu, skipBlanks_of_stops hstop, hr]
  rfl

theorem getElem?_beginningsFrom (before : String) {segs : List Segment} {i : Nat}
    (hi : i < segs.length) :
    (beginningsFrom before segs)[i]? =
      some (before ++ String.join ((segs.take (i + 1)).map Segment.source), segs[i].step) := by
  induction segs generalizing before i with
  | nil => exact absurd hi (by simp)
  | cons s segs ih =>
    cases i with
    | zero => simp [beginningsFrom_cons, String.join]
    | succ i =>
      have hi' : i < segs.length := by simpa using hi
      rw [beginningsFrom_cons, List.getElem?_cons_succ, ih _ hi', List.take_succ_cons,
        List.map_cons, String.join_cons, String.append_assoc, List.getElem_cons_succ]

/-- **The beginnings of a path are paths.**  What ends with the step `i` of an expression consists
of the sources up to that one and is verbatim what the expression begins with; it is read as the
steps up to that one, sources included.  What follows the last step is blank. -/
theorem parse_take {e : String} {p : Path} (hp : Path.parse e = .ok p) :
    p.segments ≠ [] ∧ p.beginnings.length = p.segments.length ∧
    ∀ (i : Nat) (hi : i < p.segments.length), ∃ c rest : String,
      p.beginnings[i]? = some (c, p.segments[i].step) ∧
      c = String.join ((p.segments.take (i + 1)).map Segment.source) ∧ e = c ++ rest ∧
      Path.parse c = .ok ⟨c, p.segments.take (i + 1)⟩ ∧
      (i + 1 = p.segments.length → full.Blanks rest.toList) := by
  obtain ⟨hslash, hread, -⟩ := readSegments_of_parse hp
  have hne : p.segments ≠ [] := fun hnil => (writable_of_readSegments hread).ne_nil (by simp [hnil])
  refine ⟨hne, by rw [length_beginnings, Path.steps, List.length_map], fun i hi => ?_⟩
  have hpre : p.segments.take (i + 1) ≠ [] := by
    rw [ne_eq, List.take_eq_nil_iff]
    rintro (h | h)
    · exact absurd h (by simp)
    · exact hne h
  obtain ⟨w, t, he, hw, htake, ht⟩ := exists_readSegments_take hread (x := []) rfl
    (List.take_append_drop (i + 1) p.segments).symm hpre
  rw [List.nil_append] at hw htake
  have hc : String.ofList w = String.join ((p.segments.take (i + 1)).map Segment.source) := by
    rw [← String.toList_inj, String.toList_join, String.toList_ofList, hw, List.flatMap_map]
  have hslash' : (skipBlanks w).head? ≠ some '/' := by
    intro h
    rw [he] at hslash
    exact hslash (head?_skipBlanks_append h t)
  have hparse : Path.parse (String.ofList w) = .ok ⟨String.ofList w, p.segments.take (i + 1)⟩ := by
    rw [parse_of_not_isAbsolute (by rwa [String.toList_ofList]), String.toList_ofList, htake]
  refine ⟨String.ofList w, String.ofList t, ?_, hc, ?_, hparse, fun hlast => ?_⟩
  · rw [Path.beginnings, getElem?_beginningsFrom "" hi, String.empty_append, hc]
  · rw [← String.toList_inj, String.toList_append, String.toList_ofList, String.toList_ofList, he]
  · rw [String.toList_ofList]
    exact ht (List.drop_of_length_le (by omega))

/-- Blanks around the steps, among them an ogham space mark that is read as a name in one place,
and slashes and brackets in a literal. -/
theorem parse_take_quoted :
    ∃ p, Path.parse " p:a [@b = ']/'] /\u1680c\u1680/ @d\n" = .ok p ∧
      p.segments.map Segment.source = [" p:a [@b = ']/']", " /\u1680c\u1680", "/ @d"] ∧
      Path.parse " p:a [@b = ']/'] /\u1680c\u1680" =
        .ok ⟨" p:a [@b = ']/'] /\u1680c\u1680", p.segments.take 2⟩ := by
  obtain ⟨p, hp, hsources⟩ : ∃ p, Path.parse " p:a [@b = ']/'] /\u1680c\u1680/ @d\n" = .ok p ∧
      p.segments.map Segment.source = [" p:a [@b = ']/']", " /\u1680c\u1680", "/ @d"] := by
    refine exists_ok_of_toOption_map ?_
    decide +kernel
  refine ⟨p, hp, hsources, ?_⟩
  have hlength : p.segments.length = 3 := by simpa using congrArg List.length hsources
  obtain ⟨c, rest, -, hc, -, hparse, -⟩ := (parse_take hp).2.2 1 (by omega)
  have hsource : c = " p:a [@b = ']/'] /\u1680c\u1680" := by
    rw [hc, List.map_take, hsources]
    decide
  rw [← hsource]
  exact hparse

end XmlPaths

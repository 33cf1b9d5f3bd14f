import XmlPaths.Proofs.Path.Clause

/-!
# Recognition of paths

The reader of steps takes as many blanks, and names as long, as it can, and never reconsiders a
step.  Nothing is lost by that: where some derivation ends a step, the reader ends a step as well,
up to blanks that an ogham space mark in a name may swallow.

* `readStep?_cons`          the reader of steps, character by character;
* `exists_readBareStep?_of_readStep?`, `readBareStep?_cases`, `readName?_cases`   what is read as a
  step, behind blanks, and as the name of an element;
* `Closes`                  the end of a step: blanks, and a slash or the end of the text;
* `exists_readStep?`        a step that is spelled is found;
* `exists_spellsStep_of_readStep?`   a step that is found is spelled;
* `readSegments_isOk`, `exists_spells_of_readSegments`   the same for whole paths;
* `Reads`, `readSegments_ok_iff`     what is read as a whole, with no word about refusals.
-/

namespace XmlPaths

open Alphabet

/-! ## the reader of steps -/

theorem rests_blanks_cons (c : Char) (cs : List Char) :
    Pattern.blanks.rests (c :: cs) =
      (if isBlank c then Pattern.blanks.rests cs else []) ++ [c :: cs] := by
  by_cases hc : isBlank c = true <;>
    simp [Pattern.blanks, Pattern.rests, Pattern.rounds, hc]

theorem readStep?_nil : readStep? [] = none := rfl

theorem readStep?_cons (c : Char) (cs : List Char) :
    readStep? (c :: cs) =
      (if isBlank c then readStep? cs else none).or (readBareStep? (c :: cs)) := by
  by_cases hc : isBlank c = true
  · simp [readStep?, rests_blanks_cons, hc, List.findSome?_append]
  · simp [readStep?, rests_blanks_cons, hc]

theorem readStep?_of_not_blank {c : Char} (hc : isBlank c = false) (cs : List Char) :
    readStep? (c :: cs) = readBareStep? (c :: cs) := by
  simp [readStep?_cons, hc]

theorem readStep?_blanks_append {u cs : List Char} (hu : full.Blanks u) {x : Step × List Char}
    (h : readStep? cs = some x) : readStep? (u ++ cs) = some x := by
  induction u with
  | nil => exact h
  | cons c u ih =>
    have hc : isBlank c = true := hu c (by simp)
    rw [List.cons_append, readStep?_cons, if_pos hc, ih hu.tail, Option.some_or]

/-- As many blanks are skipped before a step as can be. -/
theorem exists_readBareStep?_of_readStep? {cs r : List Char} {s : Step}
    (h : readStep? cs = some (s, r)) :
    ∃ u c t, full.Blanks u ∧ cs = u ++ c :: t ∧ readBareStep? (c :: t) = some (s, r) ∧
      (isBlank c = true → readStep? t = none) := by
  induction cs with
  | nil => exact absurd h (by simp [readStep?_nil])
  | cons c cs ih =>
    rw [readStep?_cons] at h
    by_cases hb : isBlank c = true
    · rw [if_pos hb] at h
      cases hs : readStep? cs with
      | none =>
        rw [hs, Option.none_or] at h
        exact ⟨[], c, cs, blanks_nil, rfl, h, fun _ => hs⟩
      | some x =>
        rw [hs, Option.some_or] at h
        obtain ⟨u, d, t, hu, rfl, hbare, hskip⟩ := ih (hs.trans h)
        exact ⟨c :: u, d, t, blanks_cons hb hu, rfl, hbare, hskip⟩
    · rw [if_neg hb, Option.none_or] at h
      exact ⟨[], c, cs, blanks_nil, rfl, h, fun hb' => absurd hb' hb⟩

theorem readName?_of_not_start {c : Char} (hc : isNameStart c = false) (cs : List Char) :
    readName? (c :: cs) = none := by
  simp [readName?, takeName?_of_not_start hc]

theorem readBareStep?_of_not_start {c : Char} (hc : isNameStart c = false) (hat : c ≠ '@')
    (cs : List Char) : readBareStep? (c :: cs) = none := by
  simp only [readBareStep?]
  split
  · next r h => exact absurd (List.cons.inj h).1 hat
  · simp [readName?_of_not_start hc]

theorem readName?_bare {n z : List Char} (hn : full.IsName n)
    (hz : (z.dropWhile isNameChar).head? ≠ some ':') :
    readName? (n ++ z) =
      some ((none, String.ofList (n ++ z.takeWhile isNameChar)), z.dropWhile isNameChar) := by
  simp only [readName?, takeName?_append hn]
  split
  · next h => simp at h
  · next h =>
    simp only [Option.some.injEq, Prod.mk.injEq] at h
    rw [h.2] at hz
    exact absurd rfl hz
  · next h =>
    simp only [Option.some.injEq, Prod.mk.injEq] at h
    rw [← h.1, ← h.2]

theorem readName?_qualified {p n : List Char} (hp : full.IsName p) (hn : full.IsName n)
    (z : List Char) :
    readName? (p ++ ':' :: (n ++ z)) =
      some ((some (String.ofList p), String.ofList (n ++ z.takeWhile isNameChar)),
        z.dropWhile isNameChar) := by
  have h : takeName? (p ++ ':' :: (n ++ z)) = some (p, ':' :: (n ++ z)) :=
    takeName?_append_of_stops hp (stops_cons.2 (by decide))
  simp only [readName?, h, takeName?_append hn]

theorem readBareStep?_of_name {cs z : List Char} {p : Option String} {l : String}
    (h : readName? cs = some ((p, l), z)) :
    readBareStep? cs = some (.element ⟨p, l, (readClause z).1⟩, (readClause z).2) := by
  simp only [readBareStep?]
  split
  · next r =>
    rw [readName?_of_not_start (by decide)] at h
    exact absurd h (by simp)
  · simp [h]

theorem readName?_cases {cs r : List Char} {x : Option String × String}
    (h : readName? cs = some (x, r)) :
    (∃ n z l, takeName? cs = some (n, ':' :: z) ∧ takeName? z = some (l, r) ∧
      x = (some (String.ofList n), String.ofList l)) ∨
    ∃ n, takeName? cs = some (n, r) ∧ (∀ z, r = ':' :: z → takeName? z = none) ∧
      x = (none, String.ofList n) := by
  simp only [readName?] at h
  split at h
  · exact absurd h (by simp)
  · next n z hn =>
    split at h
    · next l r' hl =>
      rw [Option.some.injEq, Prod.mk.injEq] at h
      obtain ⟨rfl, rfl⟩ := h
      exact .inl ⟨n, z, l, hn, hl, rfl⟩
    · next hl =>
      rw [Option.some.injEq, Prod.mk.injEq] at h
      obtain ⟨rfl, rfl⟩ := h
      refine .inr ⟨n, hn, fun z' hz => ?_, rfl⟩
      rw [← (List.cons.inj hz).2, hl]
  · next n z hcolon hn =>
    rw [Option.some.injEq, Prod.mk.injEq] at h
    obtain ⟨rfl, rfl⟩ := h
    exact .inr ⟨n, hn, fun z' hz => absurd hz (hcolon z'), rfl⟩

theorem readBareStep?_cases {cs r : List Char} {s : Step} (h : readBareStep? cs = some (s, r)) :
    (∃ z n, cs = '@' :: z ∧ takeName? z = some (n, r) ∧ s = .attribute (String.ofList n)) ∨
    ∃ p l z, readName? cs = some ((p, l), z) ∧ s = .element ⟨p, l, (readClause z).1⟩ ∧
      r = (readClause z).2 := by
  simp only [readBareStep?] at h
  split at h
  · obtain ⟨⟨n, r'⟩, hn, e⟩ := Option.map_eq_some_iff.1 h
    obtain ⟨rfl, rfl⟩ := Prod.mk.inj e
    exact .inl ⟨_, n, rfl, hn, rfl⟩
  · obtain ⟨⟨⟨p, l⟩, z⟩, hn, e⟩ := Option.map_eq_some_iff.1 h
    obtain ⟨rfl, rfl⟩ := Prod.mk.inj e
    exact .inr ⟨p, l, z, hn, rfl, rfl⟩

/-! ## soundness -/

theorem exists_spellsName_of_readName? {cs r : List Char} {p : Option String} {l : String}
    (h : readName? cs = some ((p, l), r)) : ∃ q, full.SpellsName p l q ∧ cs = q ++ r := by
  obtain ⟨n, z, m, hn, hm, e⟩ | ⟨n, hn, -, e⟩ := readName?_cases h
  · obtain ⟨rfl, rfl⟩ := Prod.mk.inj e
    obtain ⟨hname, rfl⟩ := isName_of_takeName? hn
    obtain ⟨hlocal, rfl⟩ := isName_of_takeName? hm
    exact ⟨_, .qualified hname hlocal, by simp⟩
  · obtain ⟨rfl, rfl⟩ := Prod.mk.inj e
    obtain ⟨hname, rfl⟩ := isName_of_takeName? hn
    exact ⟨_, .bare hname, rfl⟩

theorem exists_spellsStep_of_readBareStep? {cs r : List Char} {s : Step}
    (h : readBareStep? cs = some (s, r)) :
    ∃ s' t, full.SpellsStep s' t ∧ cs = t ++ r ∧ s'.isAttribute = s.isAttribute := by
  obtain ⟨z, n, rfl, hn, rfl⟩ | ⟨p, l, z, hn, rfl, rfl⟩ := readBareStep?_cases h
  · obtain ⟨hname, rfl⟩ := isName_of_takeName? hn
    exact ⟨_, _, .toAttribute hname, rfl, rfl⟩
  · obtain ⟨q, hq, rfl⟩ := exists_spellsName_of_readName? hn
    obtain ⟨ks, d, hd, hr⟩ := exists_spellsDemands_of_readClause z
    exact ⟨_, _, .toElement hq hd, by rw [List.append_assoc, ← hr], rfl⟩

theorem exists_spellsStep_of_readStep? {cs r : List Char} {s : Step}
    (h : readStep? cs = some (s, r)) :
    ∃ u s' t, full.Blanks u ∧ full.SpellsStep s' t ∧ cs = u ++ (t ++ r) ∧
      s'.isAttribute = s.isAttribute := by
  obtain ⟨u, c, m, hu, rfl, hs, -⟩ := exists_readBareStep?_of_readStep? h
  obtain ⟨s', t, hs', hm, he⟩ := exists_spellsStep_of_readBareStep? hs
  exact ⟨u, s', t, hu, hs', by rw [hm], he⟩

/-! ## completeness -/

/-- blanks, and then a slash or the end of the text -/
def Closes (r : List Char) : Prop := ∀ c ∈ (skipBlanks r).head?, c = '/'

/-- A name that is read as long as possible takes nothing but blanks from what follows it. -/
theorem skipBlanks_dropWhile_isNameChar {r : List Char} (h : Stops isNameChar (skipBlanks r)) :
    skipBlanks (r.dropWhile isNameChar) = skipBlanks r := by
  induction r with
  | nil => rfl
  | cons c cs ih =>
    rw [List.dropWhile_cons]
    split
    · next hc =>
      by_cases hb : isBlank c = true
      · rw [skipBlanks_cons, if_pos hb] at h ⊢
        exact ih h
      · rw [skipBlanks_cons, if_neg hb, stops_cons] at h
        rw [h] at hc
        exact absurd hc (by simp)
    · rfl

theorem Closes.stops_skipBlanks {r : List Char} (h : Closes r) :
    Stops isNameChar (skipBlanks r) := by
  intro c hc
  rw [h c hc]
  decide

/-- What may follow the name of an element: its clause or nothing, and then what `r` closes. -/
structure EndsElement (z r : List Char) : Prop where
  head : ∀ c ∈ (skipBlanks z).head?, c = '/' ∨ c = '['
  clause : ∀ z', skipBlanks z' = skipBlanks z → skipBlanks (readClause z').2 = skipBlanks r

theorem EndsElement.stops {z r : List Char} (h : EndsElement z r) :
    Stops isNameChar (skipBlanks z) := by
  intro c hc
  rcases h.head c hc with rfl | rfl <;> decide

theorem EndsElement.congr {z z' r : List Char} (h : EndsElement z r)
    (hz : skipBlanks z' = skipBlanks z) : EndsElement z' r :=
  ⟨fun c hc => h.head c (hz ▸ hc), fun x hx => h.clause x (hx.trans hz)⟩

theorem endsElement_of_demands {ks : List Comparison} {d r : List Char}
    (hd : full.SpellsDemands ks d) (hr : Closes r) : EndsElement (d ++ r) r := by
  cases hd with
  | absent =>
    refine ⟨fun c hc => .inl (hr c hc), fun z' hz => ?_⟩
    have hne : (skipBlanks z').head? ≠ some '[' := by
      intro h
      rw [hz] at h
      exact absurd (hr '[' h) (by decide)
    rw [readClause_of_head_ne hne]
    exact hz
  | @clause _ u t hu ht =>
    have hskip : skipBlanks (u ++ t ++ r) = t ++ r := by
      rw [List.append_assoc, skipBlanks_append hu]
      cases ht
      exact skipBlanks_of_stops (stops_cons.2 (by decide))
    refine ⟨fun c hc => ?_, fun z' hz => ?_⟩
    · rw [hskip] at hc
      cases ht
      exact .inr (by simpa using hc.symm)
    · obtain ⟨u', hu', he⟩ := exists_blanks_append z'
      rw [hz, hskip] at he
      rw [he, readClause_of_clause hu' ht]

/-- an element whose name is followed by its end is read up to that end -/
theorem exists_readBareStep?_of_name {p : Option String} {l : String} {q z r : List Char}
    (hq : full.SpellsName p l q) (hz : EndsElement z r) :
    ∃ e r', readBareStep? (q ++ z) = some (.element e, r') ∧ skipBlanks r' = skipBlanks r := by
  have hrest : skipBlanks (z.dropWhile isNameChar) = skipBlanks z :=
    skipBlanks_dropWhile_isNameChar hz.stops
  obtain ⟨p', l', hread⟩ : ∃ p' l', readName? (q ++ z) =
      some ((p', l'), z.dropWhile isNameChar) := by
    cases hq with
    | bare hn =>
      have hcolon : (z.dropWhile isNameChar).head? ≠ some ':' := by
        intro h
        obtain ⟨r', hr'⟩ := List.head?_eq_some_iff.1 h
        have hskip : skipBlanks z = ':' :: r' := by
          rw [← hrest, hr', skipBlanks_of_stops (stops_cons.2 (by decide))]
        rcases hz.head ':' (by rw [hskip]; rfl) with h | h <;> exact absurd h (by decide)
      exact ⟨_, _, readName?_bare hn hcolon⟩
    | qualified hp hn =>
      rw [List.append_assoc, List.cons_append]
      exact ⟨_, _, readName?_qualified hp hn z⟩
  exact ⟨_, _, readBareStep?_of_name hread, hz.clause _ hrest⟩

/-- Where a name is followed by its end, a step that begins behind it among the blanks ends there
as well. -/
theorem readStep?_of_endsElement {z r r' : List Char} {s : Step} (hz : EndsElement z r)
    (h : readStep? z = some (s, r')) :
    s.isAttribute = false ∧ skipBlanks r' = skipBlanks r := by
  induction z with
  | nil => simp [readStep?_nil] at h
  | cons c z ih =>
    by_cases hb : isBlank c = true
    · have hz' : EndsElement z r := hz.congr (by rw [skipBlanks_cons, if_pos hb])
      rw [readStep?_cons, if_pos hb] at h
      cases hs : readStep? z with
      | some x =>
        rw [hs, Option.some_or] at h
        exact ih hz' (hs.trans h)
      | none =>
        rw [hs, Option.none_or] at h
        by_cases hstart : isNameStart c = true
        · have hname : full.SpellsName none (String.ofList [c]) [c] :=
            .bare ⟨hstart, fun d hd => absurd hd (by simp)⟩
          obtain ⟨e, x, hx, hx'⟩ := exists_readBareStep?_of_name hname hz'
          rw [List.singleton_append, h] at hx
          simp only [Option.some.injEq, Prod.mk.injEq] at hx
          obtain ⟨rfl, rfl⟩ := hx
          exact ⟨rfl, hx'⟩
        · have hat : c ≠ '@' := by rintro rfl; exact absurd hb (by decide)
          rw [readBareStep?_of_not_start (by simpa using hstart) hat] at h
          exact absurd h (by simp)
    · have hc : c = '/' ∨ c = '[' := by
        refine hz.head c ?_
        rw [skipBlanks_cons, if_neg hb]
        rfl
      have hnone : readBareStep? (c :: z) = none := by
        rcases hc with rfl | rfl <;> exact readBareStep?_of_not_start (by decide) (by decide) z
      rw [readStep?_of_not_blank (by simpa using hb), hnone] at h
      exact absurd h (by simp)

/-- An element is found whose name begins with ogham space marks, although these are skipped as
blanks where something to read follows them. -/
theorem exists_readStep?_of_isName {m y r : List Char} (hm : full.IsName m)
    (hbare : ∀ n, full.IsName n →
      ∃ e r', readBareStep? (n ++ y) = some (.element e, r') ∧ skipBlanks r' = skipBlanks r)
    (hy : ∀ s r', readStep? y = some (s, r') →
      s.isAttribute = false ∧ skipBlanks r' = skipBlanks r) :
    ∃ s r', readStep? (m ++ y) = some (s, r') ∧ s.isAttribute = false ∧
      skipBlanks r' = skipBlanks r := by
  induction m with
  | nil => exact False.elim hm
  | cons c m ih =>
    obtain ⟨e, r', hr, hr'⟩ := hbare (c :: m) hm
    rw [List.cons_append] at hr ⊢
    by_cases hb : isBlank c = true
    · rw [readStep?_cons, if_pos hb]
      cases hs : readStep? (m ++ y) with
      | none => exact ⟨.element e, r', by rw [Option.none_or, hr], rfl, hr'⟩
      | some x =>
        obtain ⟨s, x⟩ := x
        rw [Option.some_or]
        refine ⟨s, x, rfl, ?_⟩
        -- either a shorter name is left, or nothing that begins a step
        cases m with
        | nil => exact hy s x hs
        | cons d m =>
          have hd : isNameChar d = true := hm.2 d (by simp)
          by_cases hstart : isNameStart d = true
          · have hm' : full.IsName (d :: m) :=
              ⟨hstart, fun f hf => hm.2 f (List.mem_cons_of_mem _ hf)⟩
            obtain ⟨s', x', hs', hgood⟩ := ih hm'
            rw [hs] at hs'
            simp only [Option.some.injEq, Prod.mk.injEq] at hs'
            obtain ⟨rfl, rfl⟩ := hs'
            exact hgood
          · have hnb : isBlank d = false := by
              rw [Bool.eq_false_iff]
              intro hdb
              rw [eq_oghamSpace_of_isBlank_of_isNameChar hdb hd] at hstart
              exact hstart (by decide)
            have hat : d ≠ '@' := by rintro rfl; exact absurd hd (by decide)
            rw [List.cons_append, readStep?_of_not_blank hnb,
              readBareStep?_of_not_start (by simpa using hstart) hat] at hs
            exact absurd hs (by simp)
    · rw [readStep?_of_not_blank (by simpa using hb)]
      exact ⟨.element e, r', hr, rfl, hr'⟩

/-- A step that is spelled between blanks and its end is found, and so is its end. -/
theorem exists_readStep? {u t r : List Char} {s : Step} (hu : full.Blanks u)
    (hs : full.SpellsStep s t) (hr : Closes r) :
    ∃ s' r', readStep? (u ++ (t ++ r)) = some (s', r') ∧ s'.isAttribute = s.isAttribute ∧
      skipBlanks r' = skipBlanks r := by
  obtain ⟨s', r', h, hs', hr'⟩ : ∃ s' r', readStep? (t ++ r) = some (s', r') ∧
      s'.isAttribute = s.isAttribute ∧ skipBlanks r' = skipBlanks r := by
    cases hs with
    | @toAttribute n hn =>
      refine ⟨.attribute (String.ofList (n ++ r.takeWhile isNameChar)), r.dropWhile isNameChar,
        ?_, rfl, skipBlanks_dropWhile_isNameChar hr.stops_skipBlanks⟩
      rw [List.cons_append, readStep?_of_not_blank (by decide)]
      simp only [readBareStep?, takeName?_append hn, Option.map_some]
    | @toElement p l ks q d hq hd =>
      have hz := endsElement_of_demands hd hr
      rw [List.append_assoc]
      cases hq with
      | bare hn =>
        exact exists_readStep?_of_isName hn
          (fun n hn => exists_readBareStep?_of_name (.bare hn) hz)
          (fun s r' h => readStep?_of_endsElement hz h)
      | @qualified p n hp hn =>
        rw [List.append_assoc, List.cons_append]
        refine exists_readStep?_of_isName hp (fun m hm => ?_) (fun s r' h => ?_)
        · simpa using exists_readBareStep?_of_name (.qualified hm hn) hz
        · rw [readStep?_of_not_blank (by decide),
            readBareStep?_of_not_start (by decide) (by decide)] at h
          exact absurd h (by simp)
  exact ⟨s', r', readStep?_blanks_append hu h, hs', hr'⟩

/-! ## whole paths -/

theorem closes_blanks {w : List Char} (hw : full.Blanks w) : Closes w := by
  intro c hc
  rw [skipBlanks_blanks hw] at hc
  exact absurd hc (by simp)

theorem skipBlanks_slash {u : List Char} (hu : full.Blanks u) (r : List Char) :
    skipBlanks (u ++ '/' :: r) = '/' :: r :=
  skipBlanks_append_cons hu (by decide) r

theorem closes_slash {u : List Char} (hu : full.Blanks u) (r : List Char) :
    Closes (u ++ '/' :: r) := by
  intro c hc
  rw [skipBlanks_slash hu] at hc
  simpa using hc.symm

/-- The reader of segments, one step at a time. -/
theorem readSegments_eq (source cs : List Char) :
    readSegments source cs =
      match readStep? cs with
      | none => .error (diagnose cs [cs])
      | some (s, rest) =>
        match skipBlanks rest with
        | [] => .ok [⟨String.ofList (consumed source rest), s⟩]
        | c :: next =>
          if c = '/' then
            if s.isAttribute then .error (.malformed .attributeNotLast, c :: next)
            else (readSegments rest next).map (⟨String.ofList (consumed source rest), s⟩ :: ·)
          else .error (diagnose rest [cs, rest]) := by
  rw [readSegments]
  split
  · next h => rw [h]
  · next s rest h =>
    rw [h]
    dsimp only
    split
    · next hr => rw [hr]
    · next c next hr =>
      rw [hr]
      dsimp only
      by_cases hc : c = '/'
      · by_cases ha : s.isAttribute = true
        · rw [if_pos hc, if_pos hc, if_pos ha, if_pos ha]
        · rw [if_pos hc, if_pos hc, if_neg ha, if_neg ha]
          cases readSegments rest next <;> rfl
      · rw [if_neg hc, if_neg hc]

theorem readSegments_last {source cs rest : List Char} {s : Step}
    (hs : readStep? cs = some (s, rest)) (hr : skipBlanks rest = []) :
    readSegments source cs = .ok [⟨String.ofList (consumed source rest), s⟩] := by
  rw [readSegments_eq, hs]
  simp only [hr]

theorem readSegments_more {source cs rest next : List Char} {s : Step}
    (hs : readStep? cs = some (s, rest)) (hr : skipBlanks rest = '/' :: next)
    (he : s.isAttribute = false) :
    readSegments source cs =
      (readSegments rest next).map (⟨String.ofList (consumed source rest), s⟩ :: ·) := by
  rw [readSegments_eq, hs]
  simp only [hr, he, if_true, Bool.false_eq_true, if_false]

theorem readSegments_isOk {steps : List Step} {t w : List Char} (ht : full.SpellsPath steps t)
    (hw : full.Blanks w) {u : List Char} (hu : full.Blanks u) (source : List Char) :
    ∃ segs, readSegments source (u ++ (t ++ w)) = .ok segs := by
  induction ht generalizing u source with
  | @last s t hs =>
    obtain ⟨s', r', h, -, hr'⟩ := exists_readStep? hu hs (closes_blanks hw)
    exact ⟨_, readSegments_last h (hr'.trans (skipBlanks_blanks hw))⟩
  | @more s rest t r x y hs hx hy _ ih =>
    have happ : u ++ (t ++ (x ++ '/' :: (y ++ r)) ++ w) =
        u ++ (t ++ (x ++ '/' :: (y ++ (r ++ w)))) := by simp
    obtain ⟨s', r', h, hs', hr'⟩ := exists_readStep? hu hs (closes_slash hx (y ++ (r ++ w)))
    rw [skipBlanks_slash hx] at hr'
    obtain ⟨segs, hsegs⟩ := ih hy r'
    rw [happ, readSegments_more h hr' hs', hsegs]
    exact ⟨_, rfl⟩

/-- What the reader of segments accepts: a step with nothing but blanks behind it, or a step to an
element and, behind a slash, what it accepts.  The source of a segment is what is consumed of
`source` up to its end. -/
inductive Reads : List Char → List Char → List Segment → Prop
  | last {source cs rest : List Char} {s : Step} (hs : readStep? cs = some (s, rest))
      (hend : skipBlanks rest = []) :
      Reads source cs [⟨String.ofList (consumed source rest), s⟩]
  | more {source cs rest next : List Char} {s : Step} {segs : List Segment}
      (hs : readStep? cs = some (s, rest)) (hslash : skipBlanks rest = '/' :: next)
      (helement : s.isAttribute = false) (hrest : Reads rest next segs) :
      Reads source cs (⟨String.ofList (consumed source rest), s⟩ :: segs)

theorem reads_of_readSegments {source cs : List Char} {segs : List Segment}
    (h : readSegments source cs = .ok segs) : Reads source cs segs := by
  fun_induction readSegments source cs generalizing segs with
  | case2 source cs s rest hs _ =>
    rename_i hend
    obtain rfl := Except.ok.inj h
    exact .last hs hend
  | case4 source cs s rest hs _ next he segments hsegs hslash =>
    rename_i ih
    obtain rfl := Except.ok.inj h
    exact .more hs hslash (Bool.eq_false_iff.2 he) (ih hsegs)
  -- the other branches are refusals
  | case1 => exact absurd h (by simp)
  | case3 => exact absurd h (by simp)
  | case5 => exact absurd h (by simp)
  | case6 => exact absurd h (by simp)

/-- **The segments of a text** are read just where `Reads` has them. -/
theorem readSegments_ok_iff {source cs : List Char} {segs : List Segment} :
    readSegments source cs = .ok segs ↔ Reads source cs segs := by
  refine ⟨reads_of_readSegments, fun h => ?_⟩
  induction h with
  | last hs hend => exact readSegments_last hs hend
  | more hs hslash helement _ ih =>
    rw [readSegments_more hs hslash helement, ih]
    rfl

theorem exists_spells_of_readSegments {source cs : List Char} {segs : List Segment}
    (h : readSegments source cs = .ok segs) : ∃ steps, full.Spells steps cs := by
  rw [readSegments_ok_iff] at h
  induction h with
  | @last source cs rest s hs hend =>
    obtain ⟨u, s', t, hu, hs', rfl, -⟩ := exists_spellsStep_of_readStep? hs
    obtain ⟨w, hw, he⟩ := exists_blanks_append rest
    rw [hend, List.append_nil] at he
    exact ⟨[s'], u, t, rest, hu, .last hs', he ▸ hw, rfl⟩
  | @more source cs rest next s segs hs hslash helement _ ih =>
    obtain ⟨steps, v, t', w, hv, ht', hw, rfl⟩ := ih
    obtain ⟨u, s', t, hu, hs', rfl, hattr⟩ := exists_spellsStep_of_readStep? hs
    obtain ⟨x, hx, hrest⟩ := exists_blanks_append rest
    obtain ⟨e, rfl⟩ := Step.exists_eq_element (hattr.trans helement)
    refine ⟨.element e :: steps, u, _, w, hu, .more hs' hx hv ht', hw, ?_⟩
    rw [hrest, hslash]
    simp

end XmlPaths

import XmlPaths.Proofs.Path.Recognition

/-!
# The segments of a path

Over an alphabet in which no blank is a name character a path is read exactly as it is spelled,
step by step, and the source of each segment is the text from the end of the step before to the
end of its own.

* `Alphabet.SpellsSegments`     paths by their segments;
* `EndsStep`                    what may stand behind a step;
* `readStep?_append`            a step is read as it is spelled;
* `readSegments_of_segments`    so are all segments of a path.
-/

namespace XmlPaths

namespace Alphabet

/-- a path by its segments; `lead` is what stands between the step before and the first one -/
inductive SpellsSegments (A : Alphabet) : List Char → List Segment → List Char → Prop where
  | last {s : Step} {lead t : List Char} (hs : A.SpellsStep s t) :
      SpellsSegments A lead [⟨String.ofList (lead ++ t), s⟩] t
  | more {s : ChildStep} {segs : List Segment} {lead t r u w : List Char}
      (hs : A.SpellsStep (.element s) t) (hu : A.Blanks u) (hw : A.Blanks w)
      (hr : SpellsSegments A (u ++ '/' :: w) segs r) :
      SpellsSegments A lead (⟨String.ofList (lead ++ t), .element s⟩ :: segs)
        (t ++ (u ++ '/' :: (w ++ r)))

variable {A : Alphabet}

theorem SpellsPath.exists_segments {steps : List Step} {t : List Char}
    (h : A.SpellsPath steps t) (lead : List Char) :
    ∃ segs, A.SpellsSegments lead segs t ∧ segs.map Segment.step = steps := by
  induction h generalizing lead with
  | last hs => exact ⟨_, .last hs, rfl⟩
  | @more s rest t r u w hs hu hw _ ih =>
    obtain ⟨segs, hsegs, hsteps⟩ := ih (u ++ '/' :: w)
    exact ⟨_, .more hs hu hw hsegs, by rw [List.map_cons, hsteps]⟩

end Alphabet

open Alphabet

/-! ## what ends a step -/

/-- What may stand behind a step: nothing that its name could go on with, and no clause. -/
structure EndsStep (r : List Char) : Prop where
  stops : Stops isNameChar r
  noColon : r.head? ≠ some ':'
  noClause : readClause r = ([], r)

theorem Closes.endsStep {r : List Char} (h : Closes r) (hstop : Stops isNameChar r) :
    EndsStep r where
  stops := hstop
  noColon := head?_ne_of_skipBlanks (by decide) fun hr => absurd (h ':' hr) (by decide)
  noClause := readClause_of_head_ne fun hr => absurd (h '[' hr) (by decide)

/-! ## steps are read as they are spelled -/

section
variable {A : Alphabet} (hA : A.Separate)
include hA

/-- A mark behind blanks ends a step, if no clause is read there. -/
theorem endsStep_append_cons {w r : List Char} (hw : A.Blanks w) {c : Char}
    (hblank : isBlank c = false) (hname : isNameChar c = false) (hcolon : c ≠ ':')
    (hclause : readClause (w ++ c :: r) = ([], w ++ c :: r)) : EndsStep (w ++ c :: r) where
  stops := hA.stops_blanks_append hw (stops_cons.2 hname)
  noColon := by
    refine head?_ne_of_skipBlanks (by decide) ?_
    rw [skipBlanks_append_cons (hA.blanks hw) hblank]
    simpa using hcolon
  noClause := hclause

theorem endsStep_slash {w : List Char} (hw : A.Blanks w) (r : List Char) :
    EndsStep (w ++ '/' :: r) :=
  (closes_slash (hA.blanks hw) r).endsStep (hA.stops_blanks_append hw (stops_cons.2 (by decide)))

theorem readName?_append {p : Option String} {l : String} {q z : List Char}
    (hq : A.SpellsName p l q) (hz : Stops isNameChar z) (hcolon : z.head? ≠ some ':') :
    readName? (q ++ z) = some ((p, l), z) := by
  cases hq with
  | bare hn =>
    rw [readName?_bare (hA.isName hn) (by rwa [dropWhile_of_stops hz]), takeWhile_of_stops hz,
      dropWhile_of_stops hz, List.append_nil]
  | qualified hp hn =>
    rw [List.append_assoc, List.cons_append, readName?_qualified (hA.isName hp) (hA.isName hn),
      takeWhile_of_stops hz, dropWhile_of_stops hz, List.append_nil]

theorem readClause_append {ks : List Comparison} {d r : List Char} (hd : A.SpellsDemands ks d)
    (hr : EndsStep r) : readClause (d ++ r) = (ks, r) := by
  cases hd with
  | absent => exact hr.noClause
  | clause hu ht =>
    rw [List.append_assoc, readClause_of_clause (hA.blanks hu) (hA.spellsClause ht),
      comparisonsIn_of_clause hA ht]

theorem readBareStep?_append {s : Step} {t r : List Char} (hs : A.SpellsStep s t)
    (hr : EndsStep r) : readBareStep? (t ++ r) = some (s, r) := by
  cases hs with
  | toAttribute hn =>
    simp only [List.cons_append, readBareStep?, takeName?_append_of_stops (hA.isName hn) hr.stops,
      Option.map_some]
  | @toElement p l ks q d hq hd =>
    obtain ⟨hz, hcolon⟩ : Stops isNameChar (d ++ r) ∧ (d ++ r).head? ≠ some ':' := by
      cases hd with
      | absent => exact ⟨hr.stops, hr.noColon⟩
      | @clause _ u t hu ht =>
        cases ht
        rw [List.append_assoc]
        refine ⟨hA.stops_blanks_append hu (stops_cons.2 (by decide)), fun h => ?_⟩
        cases u with
        | nil => exact absurd h (by simp)
        | cons c u =>
          have hc : c = ':' := by simpa using h
          exact absurd (hA.isBlank (hu c (by simp))) (by rw [hc]; decide)
    rw [List.append_assoc,
      readBareStep?_of_name (readName?_append hA hq hz hcolon), readClause_append hA hd hr]

end

section
variable {A : Alphabet} (hA : A.Clear)
include hA

/-- the first character of a step, which is no blank -/
theorem exists_cons_of_spellsStep {s : Step} {t : List Char} (hs : A.SpellsStep s t) :
    ∃ c cs, t = c :: cs ∧ isBlank c = false ∧ (c = '@' ∨ isNameStart c = true) := by
  cases hs with
  | toAttribute _ => exact ⟨_, _, rfl, by decide, .inl rfl⟩
  | toElement hq _ =>
    cases hq with
    | bare hn =>
      obtain ⟨c, cs, rfl, hc, -⟩ := hn.exists_cons
      exact ⟨c, _, rfl, hA.start_apart hc, .inr (hA.isNameStart hc)⟩
    | qualified hp _ =>
      obtain ⟨c, cs, rfl, hc, -⟩ := hp.exists_cons
      exact ⟨c, _, rfl, hA.start_apart hc, .inr (hA.isNameStart hc)⟩

theorem readStep?_append {s : Step} {u t r : List Char} (hu : A.Blanks u)
    (hs : A.SpellsStep s t) (hr : EndsStep r) : readStep? (u ++ (t ++ r)) = some (s, r) := by
  have hbare := readBareStep?_append hA.toSeparate hs hr
  obtain ⟨c, cs, rfl, hc, -⟩ := exists_cons_of_spellsStep hA hs
  refine readStep?_blanks_append (hA.blanks hu) ?_
  rw [List.cons_append, readStep?_of_not_blank hc]
  exact hbare

/-! ## segments are read as they are spelled -/

/-- The segments of a path between blanks; `before` is what the first source begins with. -/
theorem readSegments_of_segments {segs : List Segment} {lead t w : List Char}
    (h : A.SpellsSegments lead segs t) (hw : A.Blanks w) {before u : List Char}
    (hu : A.Blanks u) (hlead : lead = before ++ u) :
    readSegments (before ++ (u ++ (t ++ w))) (u ++ (t ++ w)) = .ok segs := by
  induction h generalizing before u with
  | @last s lead t hs =>
    have hstop : Stops isNameChar w := by simpa using hA.stops_blanks_append hw stops_nil
    have hend : skipBlanks w = [] := skipBlanks_blanks (hA.blanks hw)
    have hread := readStep?_append hA hu hs ((closes_blanks (hA.blanks hw)).endsStep hstop)
    have hsource : consumed (before ++ (u ++ (t ++ w))) w = lead ++ t := by
      rw [hlead]
      simpa using consumed_append (before ++ (u ++ t)) w
    rw [readSegments_last hread hend, hsource]
  | @more s segs lead t r x y hs hx hy _ ih =>
    have happ : t ++ (x ++ '/' :: (y ++ r)) ++ w = t ++ (x ++ '/' :: (y ++ (r ++ w))) := by simp
    have hx' := hA.blanks hx
    have hread := readStep?_append hA hu hs (endsStep_slash hA.toSeparate hx (y ++ (r ++ w)))
    have hlead' : x ++ '/' :: y = (x ++ ['/']) ++ y := by simp
    have hrest := ih hy hlead'
    have hsource : consumed (before ++ (u ++ (t ++ (x ++ '/' :: (y ++ (r ++ w))))))
        (x ++ '/' :: (y ++ (r ++ w))) = lead ++ t := by
      rw [hlead]
      simpa using consumed_append (before ++ (u ++ t)) (x ++ '/' :: (y ++ (r ++ w)))
    rw [happ, readSegments_more hread (skipBlanks_slash hx' _) rfl, hsource]
    rw [List.append_assoc, List.singleton_append] at hrest
    rw [hrest]
    rfl

end

end XmlPaths

import XmlPaths.Proofs.Path.Restriction
import XmlPaths.Proofs.Path.Segments

/-!
# What is accepted as a path

An expression is accepted iff the grammar spells it and its first character that is no blank is no
slash.  The second condition matters for expressions only that begin with a name of ogham space
marks and a slash behind it: the name is taken for blanks, and the expression for an absolute one.

* `parse_of_spells`              the path of an expression without characters of two kinds;
* `parse_accepts_grammar`        acceptance, refusal and the steps that are returned;
* `not_parse_accepts_all_spelled`   an expression of the grammar that is refused.
-/

namespace XmlPaths

open Alphabet

theorem exists_ok_of_toOption_map {ε α β : Type} {x : Except ε α} {f : α → β} {b : β}
    (h : x.toOption.map f = some b) : ∃ a, x = .ok a ∧ f a = b := by
  cases x with
  | error _ => exact absurd h (by simp [Except.toOption])
  | ok a => exact ⟨a, rfl, by simpa [Except.toOption] using h⟩

theorem isAbsolute_iff (e : String) :
    isAbsolute e = true ↔ (skipBlanks e.toList).head? = some '/' := by
  rw [isAbsolute]
  cases skipBlanks e.toList with
  | nil => simp
  | cons c cs =>
    simp only [List.isPrefixOf_cons_cons, List.isPrefixOf_nil_left, Bool.and_true, beq_iff_eq,
      List.head?_cons, Option.some.injEq]
    exact eq_comm

theorem parse_of_isAbsolute {e : String} (h : (skipBlanks e.toList).head? = some '/') :
    Path.parse e = .error (.absolute e) := by
  rw [Path.parse, if_pos ((isAbsolute_iff e).2 h)]

theorem parse_of_not_isAbsolute {e : String} (h : (skipBlanks e.toList).head? ≠ some '/') :
    Path.parse e =
      match readSegments e.toList e.toList with
      | .ok segments => .ok ⟨e, segments⟩
      | .error (fault, rest) => .error (fault.toError e rest) := by
  unfold Path.parse
  exact if_neg fun ha => h ((isAbsolute_iff e).1 ha)

theorem exists_parse_of_spells {e : String} {steps : List Step}
    (hs : full.Spells steps e.toList) (h : (skipBlanks e.toList).head? ≠ some '/') :
    ∃ p, Path.parse e = .ok p := by
  obtain ⟨u, t, w, hu, ht, hw, he⟩ := hs
  obtain ⟨segs, hsegs⟩ := readSegments_isOk ht hw hu e.toList
  rw [← he] at hsegs
  rw [parse_of_not_isAbsolute h, hsegs]
  exact ⟨_, rfl⟩

/-- What is accepted is spelled, and its segments were read. -/
theorem readSegments_of_parse {e : String} {p : Path} (h : Path.parse e = .ok p) :
    (skipBlanks e.toList).head? ≠ some '/' ∧
      readSegments e.toList e.toList = .ok p.segments ∧ p.expression = e := by
  by_cases ha : (skipBlanks e.toList).head? = some '/'
  · rw [parse_of_isAbsolute ha] at h
    exact absurd h (by simp)
  · rw [parse_of_not_isAbsolute ha] at h
    cases hs : readSegments e.toList e.toList with
    | error x =>
      rw [hs] at h
      exact absurd h (by simp)
    | ok segs =>
      rw [hs] at h
      simp only [Except.ok.injEq] at h
      rw [← h]
      exact ⟨ha, rfl, rfl⟩

theorem exists_spells_of_parse {e : String} {p : Path} (h : Path.parse e = .ok p) :
    ∃ steps, full.Spells steps e.toList :=
  exists_spells_of_readSegments (readSegments_of_parse h).2.1

/-- An expression that is neither absolute nor spelled is refused for a fault at some place. -/
theorem parse_of_not_spells {e : String} (h : (skipBlanks e.toList).head? ≠ some '/')
    (hs : ¬ ∃ steps, full.Spells steps e.toList) :
    ∃ position, (∃ feature, Path.parse e = .error (.unsupported e position feature)) ∨
      ∃ fault, Path.parse e = .error (.malformed e position fault) := by
  rw [parse_of_not_isAbsolute h]
  cases hr : readSegments e.toList e.toList with
  | ok segs => exact absurd (exists_spells_of_readSegments hr) hs
  | error x =>
    obtain ⟨fault, rest⟩ := x
    refine ⟨e.toList.length - rest.length, ?_⟩
    cases fault with
    | unsupported f => exact .inl ⟨f, rfl⟩
    | malformed m => exact .inr ⟨m, rfl⟩

/-! ## the steps of an accepted expression -/

section
variable {A : Alphabet} (hA : A.Clear)
include hA

/-- No text that begins with a path is absolute. -/
theorem head_ne_slash_of_spellsPath {steps : List Step} {u t : List Char} (hu : A.Blanks u)
    (ht : A.SpellsPath steps t) (r : List Char) :
    (skipBlanks (u ++ (t ++ r))).head? ≠ some '/' := by
  obtain ⟨s, t', r', hs, rfl⟩ : ∃ s t' r', A.SpellsStep s t' ∧ t = t' ++ r' := by
    cases ht with
    | last hs => exact ⟨_, _, [], hs, by simp⟩
    | more hs _ _ _ => exact ⟨_, _, _, hs, rfl⟩
  obtain ⟨c, cs, rfl, hc, hstart⟩ := exists_cons_of_spellsStep hA hs
  rw [skipBlanks_append (hA.blanks hu), List.cons_append, List.cons_append,
    skipBlanks_of_stops (stops_cons.2 hc)]
  intro h
  have hslash : c = '/' := by simpa using h
  rw [hslash] at hstart
  rcases hstart with h | h <;> exact absurd h (by decide)

/-- An expression in which no blank is a name character has one path, with the steps that it
spells and the texts between their ends for sources. -/
theorem parse_of_spells {e : String} {steps : List Step} (h : A.Spells steps e.toList) :
    ∃ u t w segs, A.Blanks u ∧ A.SpellsSegments u segs t ∧ A.Blanks w ∧
      e.toList = u ++ (t ++ w) ∧ segs.map Segment.step = steps ∧
      Path.parse e = .ok ⟨e, segs⟩ := by
  obtain ⟨u, t, w, hu, ht, hw, he⟩ := h
  have hhead := head_ne_slash_of_spellsPath hA hu ht w
  rw [← he] at hhead
  obtain ⟨segs, hsegs, hsteps⟩ := ht.exists_segments u
  have hread := readSegments_of_segments hA hsegs hw hu (List.nil_append u).symm
  rw [List.nil_append, ← he] at hread
  refine ⟨u, t, w, segs, hu, hsegs, hw, he, hsteps, ?_⟩
  rw [parse_of_not_isAbsolute hhead, hread]

end

/-- Without the ogham space mark there is one list of steps that an expression spells. -/
theorem steps_of_spells {e : String} {p : Path} (he : oghamSpace ∉ e.toList)
    (hp : Path.parse e = .ok p) {steps : List Step} (h : full.Spells steps e.toList) :
    steps = p.steps := by
  have hwithin := within_of_not_mem fun hc => he (mem_of_mem_unquoted hc)
  obtain ⟨-, -, -, segs, -, -, -, -, hsteps, hparse⟩ :=
    parse_of_spells clear_unambiguous (h.restrict hwithin)
  rw [hp, Except.ok.injEq] at hparse
  rw [← hsteps, hparse]
  rfl

/-- **An expression is accepted iff it is a path between blanks and its first character that is no
blank is no slash.**  An expression that begins with a slash is refused as an absolute one, any
other for a fault at some place.  The steps of an accepted one without ogham space marks are those
that it spells, and there are no others that it spells. -/
theorem parse_accepts_grammar (e : String) :
    ((∃ p, Path.parse e = .ok p) ↔
      (∃ steps, full.Spells steps e.toList) ∧ (skipBlanks e.toList).head? ≠ some '/') ∧
    ((skipBlanks e.toList).head? = some '/' → Path.parse e = .error (.absolute e)) ∧
    ((skipBlanks e.toList).head? ≠ some '/' → (¬ ∃ steps, full.Spells steps e.toList) →
      ∃ position, (∃ feature, Path.parse e = .error (.unsupported e position feature)) ∨
        ∃ fault, Path.parse e = .error (.malformed e position fault)) ∧
    (oghamSpace ∉ e.toList → ∀ p, Path.parse e = .ok p →
      ∀ steps, full.Spells steps e.toList ↔ steps = p.steps) := by
  refine ⟨⟨?_, ?_⟩, parse_of_isAbsolute, parse_of_not_spells, ?_⟩
  · rintro ⟨p, hp⟩
    exact ⟨exists_spells_of_parse hp, (readSegments_of_parse hp).1⟩
  · rintro ⟨⟨steps, hs⟩, h⟩
    exact exists_parse_of_spells hs h
  · intro he p hp steps
    constructor
    · exact steps_of_spells he hp
    · rintro rfl
      obtain ⟨steps, hs⟩ := exists_spells_of_parse hp
      rw [← steps_of_spells he hp hs]
      exact hs

/-- Brackets, slashes and an `and` in a literal, and blanks of several kinds. -/
theorem parse_accepts_grammar_quoted :
    oghamSpace ∉ "\u2003p:a\n[@b = '] and @/' and @c]/@d".toList ∧
    ∃ p, Path.parse "\u2003p:a\n[@b = '] and @/' and @c]/@d" = .ok p ∧
      ∀ steps, full.Spells steps "\u2003p:a\n[@b = '] and @/' and @c]/@d".toList ↔
        steps = [.element ⟨some "p", "a", [⟨"b", some "] and @/"⟩, ⟨"c", none⟩]⟩,
          .attribute "d"] := by
  have he : oghamSpace ∉ "\u2003p:a\n[@b = '] and @/' and @c]/@d".toList := by decide
  obtain ⟨p, hp, hsteps⟩ : ∃ p, Path.parse "\u2003p:a\n[@b = '] and @/' and @c]/@d" = .ok p ∧
      p.steps = [.element ⟨some "p", "a", [⟨"b", some "] and @/"⟩, ⟨"c", none⟩]⟩,
        .attribute "d"] := by
    refine exists_ok_of_toOption_map ?_
    decide +kernel
  refine ⟨he, p, hp, ?_⟩
  rw [← hsteps]
  exact (parse_accepts_grammar _).2.2.2 he p hp

/-- The ogham space mark is a name, and so spells a step in front of the slash; but it is skipped
as a blank, and the expression is refused as an absolute one. -/
theorem not_parse_accepts_all_spelled :
    ¬ ∀ e : String, (∃ p, Path.parse e = .ok p) ↔ ∃ steps, full.Spells steps e.toList := by
  intro h
  have hname : full.IsName [oghamSpace] := ⟨by decide, fun d hd => absurd hd (by simp)⟩
  have hlast : full.IsName ['a'] := ⟨by decide, fun d hd => absurd hd (by simp)⟩
  have hpath : full.SpellsPath _ ([oghamSpace] ++ [] ++ ([] ++ '/' :: ([] ++ (['a'] ++ [])))) :=
    .more (.toElement (.bare hname) .absent) blanks_nil blanks_nil
      (.last (.toElement (.bare hlast) .absent))
  obtain ⟨p, hp⟩ := (h "\u1680/a").2 ⟨_, [], _, [], blanks_nil, hpath, blanks_nil, by decide⟩
  rw [parse_of_isAbsolute (by decide)] at hp
  exact absurd hp (by simp)

end XmlPaths

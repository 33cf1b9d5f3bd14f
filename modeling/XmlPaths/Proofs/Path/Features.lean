import XmlPaths.Failure
import XmlPaths.Proofs.Path.Detection
import XmlPaths.Proofs.Path.Readings
import XmlPaths.Proofs.Path.Refusals

/-!
# Features behind a path

A path to an element that goes on with a feature of the full expression language is refused for
that feature, at its place, whatever comes next.  A step may be read from the front of the feature,
such as the name of an axis, or a part of it up to a hyphen; that there is a feature is noticed
where the step began.

* `RefusedFor`              an expression is refused for a feature at a position, and reported so;
* `refuses_of_detect`       what begins with a feature is refused for it;
* `refuses_behind_slash`, `refuses_behind_path`   so is a path that goes on with it;
* `refusedFor_behind`       the features behind a path.
-/

namespace XmlPaths

open Alphabet

/-- The expression is refused for the feature, which begins at the position; the report describes
it so. -/
def RefusedFor (e : String) (position : Nat) (f : Feature) (description : String) : Prop :=
  Path.parse e = .error (.unsupported e position f) ∧
    (Failure.path (.unsupported e position f)).report? = some (.unsupported e position description)

theorem refusedFor_of_refuses {e : String} {before rest : List Char} {f : Feature}
    (he : e.toList = before ++ rest) (hslash : (skipBlanks e.toList).head? ≠ some '/')
    (h : Refuses e.toList (.unsupported f, rest)) :
    RefusedFor e before.length f f.description := by
  have hposition : e.toList.length - rest.length = before.length := by
    rw [he, List.length_append]
    omega
  refine ⟨?_, rfl⟩
  rw [parse_of_refuses hslash h, Fault.toError, hposition]

/-! ## texts that begin with a feature -/

/-- A text that begins with a feature is refused for it, even if a step is read there, as long as
no slash ends that step. -/
theorem refuses_of_detect {cs : List Char} {f : Feature} (hf : Feature.detect? cs = some f)
    (hstep : ∀ s rest, readStep? cs = some (s, rest) →
      ∃ c next, skipBlanks rest = c :: next ∧ c ≠ '/') :
    Refuses cs (.unsupported f, skipBlanks cs) := by
  cases hs : readStep? cs with
  | none =>
    have h := Refuses.noStep hs
    rwa [diagnose_of_detect hf] at h
  | some x =>
    obtain ⟨s, rest⟩ := x
    obtain ⟨c, next, hc, hne⟩ := hstep s rest hs
    have h := Refuses.noSlash hs hc hne
    rwa [diagnose_of_detect hf] at h

theorem refuses_of_not_start {c : Char} {cs : List Char} {f : Feature} (hc : isBlank c = false)
    (hstart : isNameStart c = false) (hat : c ≠ '@')
    (hf : Feature.detect? (c :: cs) = some f) : Refuses (c :: cs) (.unsupported f, c :: cs) := by
  have hread : readStep? (c :: cs) = none := by
    rw [readStep?_of_not_blank hc, readBareStep?_of_not_start hstart hat]
  have h := refuses_of_detect hf fun s rest hs => absurd (hread.symm.trans hs) (by simp)
  rwa [skipBlanks_of_stops (stops_cons.2 hc)] at h

/-- what makes an axis or a call of the name-like characters in front of it -/
inductive Marks : List Char → Prop
  | axis (r : List Char) : Marks (':' :: ':' :: r)
  | call (r : List Char) : Marks ('(' :: r)

section
variable {c : Char} {q z : List Char} (hq : ∀ d ∈ c :: q, Feature.isNameLike d = true)
  (hz : Marks z)
include hq hz

/-- the first character behind a name that is read from the front of an axis or a call -/
theorem exists_cons_of_marked {m : List Char} (hm : m <:+ q) :
    ∃ d r, m ++ z = d :: r ∧ isBlank d = false ∧ d ≠ '/' ∧ d ≠ '[' ∧ (d = ':' → m = []) := by
  cases m with
  | nil =>
    cases hz with
    | axis r => exact ⟨':', _, rfl, by decide⟩
    | call r => exact ⟨'(', _, rfl, by decide⟩
  | cons d m =>
    have hd : Feature.isNameLike d = true :=
      hq d (List.mem_cons_of_mem _ (hm.subset List.mem_cons_self))
    exact ⟨d, m ++ z, rfl, Feature.isBlank_of_isNameLike hd, ne_of_apart hd (by decide +kernel),
      ne_of_apart hd (by decide +kernel), fun h => absurd h (ne_of_apart hd (by decide +kernel))⟩

omit hq in
theorem exists_of_takeName?_marked {n y : List Char}
    (h : takeName? (c :: (q ++ z)) = some (n, y)) : ∃ m, m <:+ q ∧ y = m ++ z := by
  have hstop : Stops isNameChar z := by cases hz <;> exact stops_cons.2 (by decide)
  simp only [takeName?] at h
  split at h
  · rw [Option.some.injEq, Prod.mk.injEq, dropWhile_append_of_stops q hstop] at h
    exact ⟨_, List.dropWhile_suffix isNameChar, h.2.symm⟩
  · exact absurd h (by simp)

/-- A step that is read from the front of an axis or a call ends at its mark or at a hyphen. -/
theorem exists_of_readStep?_marked {s : Step} {rest : List Char}
    (h : readStep? (c :: (q ++ z)) = some (s, rest)) :
    ∃ d next, skipBlanks rest = d :: next ∧ d ≠ '/' := by
  have hc : Feature.isNameLike c = true := hq c List.mem_cons_self
  have hat : c ≠ '@' := ne_of_apart hc (by decide +kernel)
  rw [readStep?_of_not_blank (Feature.isBlank_of_isNameLike hc)] at h
  obtain ⟨y, n, hcs, -, -⟩ | ⟨p, l, y, hname, -, rfl⟩ := readBareStep?_cases h
  · exact absurd (List.cons.inj hcs).1 hat
  obtain ⟨n, y', l', htake, hlocal, -⟩ | ⟨n, htake, -, -⟩ := readName?_cases hname
  · -- the mark of an axis is no separator of a prefix
    obtain ⟨m, hm, hy⟩ := exists_of_takeName?_marked hz htake
    obtain ⟨d, r, hd, -, -, -, hcolon⟩ := exists_cons_of_marked hq hz hm
    obtain rfl := hcolon (List.cons.inj (hy.trans hd)).1.symm
    cases hz with
    | axis r =>
      obtain rfl := (List.cons.inj hy).2
      rw [takeName?_of_not_start (by decide)] at hlocal
      exact absurd hlocal (by simp)
    | call r => exact absurd (List.cons.inj hy).1 (by decide)
  · obtain ⟨m, hm, rfl⟩ := exists_of_takeName?_marked hz htake
    obtain ⟨d, r, hd, hblank, hslash, hbracket, -⟩ := exists_cons_of_marked hq hz hm
    have hskip : skipBlanks (m ++ z) = d :: r := by
      rw [hd, skipBlanks_of_stops (stops_cons.2 hblank)]
    rw [readClause_of_head_ne (by simpa [hskip] using hbracket)]
    exact ⟨d, r, hskip, hslash⟩

theorem refuses_of_marked {f : Feature} (hf : Feature.detect? (c :: (q ++ z)) = some f) :
    Refuses (c :: (q ++ z)) (.unsupported f, c :: (q ++ z)) := by
  have h := refuses_of_detect hf fun s rest hs => exists_of_readStep?_marked hq hz hs
  have hc : Feature.isNameLike c = true := hq c List.mem_cons_self
  rwa [skipBlanks_of_stops (stops_cons.2 (Feature.isBlank_of_isNameLike hc))] at h

end

/-! ## paths that go on with a feature -/

section
variable {A : Alphabet} (hA : A.Clear)
include hA

/-- No feature is detected in front of a step to an element, if what follows it makes none. -/
theorem detect?_step {s : ChildStep} {u t z : List Char} (hu : A.Blanks u)
    (ht : A.SpellsStep (.element s) t) (hz : Feature.Unmarked z)
    (hstop : Stops Feature.isNameLike z) : Feature.detect? (u ++ (t ++ z)) = none := by
  rw [Feature.detect?_blanks_append (hA.blanks hu)]
  cases ht with
  | @toElement p l ks q d hq hd =>
    -- the clause makes no feature of the name either
    obtain ⟨hd', hdstop⟩ : Feature.Unmarked (d ++ z) ∧ Stops Feature.isNameLike (d ++ z) := by
      cases hd with
      | absent => exact ⟨hz, hstop⟩
      | @clause _ v t hv ht =>
        cases ht
        have hskip : ∀ r, skipBlanks (v ++ '[' :: r) = '[' :: r :=
          skipBlanks_append_cons (hA.blanks hv) (by decide)
        rw [List.append_assoc, List.cons_append]
        refine ⟨Feature.unmarked_of_head ?_ ?_, stops_append (fun c hc =>
          Feature.isNameLike_of_isBlank (hA.isBlank (hv c hc))) (stops_cons.2 (by decide +kernel))⟩
        · simp [hskip]
        · simp [hskip]
    rw [List.append_assoc]
    cases hq with
    | bare hn =>
      obtain ⟨c, n, rfl, hc, -⟩ := hn.exists_cons
      exact Feature.detect?_name (isNameChar_of_isName (hA.isName hn)) (hA.start_apart hc)
        hd' hdstop
    | @qualified p n hp hn =>
      obtain ⟨c, p, rfl, hc, -⟩ := hp.exists_cons
      rw [List.append_assoc, List.cons_append]
      exact Feature.detect?_name (isNameChar_of_isName (hA.isName hp)) (hA.start_apart hc)
        (hd'.qualified (hA.isName hn) hdstop) (stops_cons.2 (by decide +kernel))

/-- A path that goes on is refused as its last step is. -/
theorem refuses_of_spellsPath {steps : List Step} {t : List Char} (ht : A.SpellsPath steps t)
    (hlast : ∀ s, steps.getLast? = some s → s.isAttribute = false) {r : List Char}
    {x : Fault × List Char} (hstep : ∀ {u t s}, A.Blanks u → A.SpellsStep (.element s) t →
      Refuses (u ++ (t ++ r)) x) {u : List Char} (hu : A.Blanks u) : Refuses (u ++ (t ++ r)) x := by
  induction ht generalizing u with
  | @last s t hs =>
    obtain ⟨e, rfl⟩ := Step.exists_eq_element (hlast s rfl)
    exact hstep hu hs
  | @more s rest t r' v w hs hv hw hrest ih =>
    have hlast' : ∀ s, rest.getLast? = some s → s.isAttribute = false := by
      intro s' hs'
      refine hlast s' ?_
      rw [List.getLast?_cons_of_ne_nil hrest.steps_ne_nil, hs']
    have happ : u ++ (t ++ (v ++ '/' :: (w ++ r')) ++ r) =
        u ++ (t ++ (v ++ '/' :: (w ++ (r' ++ r)))) := by simp
    have hread := readStep?_append hA hu hs (endsStep_slash hA.toSeparate hv (w ++ (r' ++ r)))
    rw [happ]
    exact .more hread (skipBlanks_slash (hA.blanks hv) _) rfl (ih hlast' hw)

section
variable {steps : List Step} {u t w next : List Char} (hu : A.Blanks u)
  (ht : A.SpellsPath steps t) (hw : A.Blanks w)
  (hlast : ∀ s, steps.getLast? = some s → s.isAttribute = false)
include hu ht hw hlast

theorem refuses_behind_slash {x : Fault × List Char} (hnext : Refuses next x) :
    Refuses (u ++ (t ++ (w ++ '/' :: next))) x := by
  refine refuses_of_spellsPath hA ht hlast (fun hu hs => ?_) hu
  have hread := readStep?_append hA hu hs (endsStep_slash hA.toSeparate hw next)
  exact .more hread (skipBlanks_slash (hA.blanks hw) next) rfl hnext

/-- What follows the path is no clause, and it is a feature that does not begin with a name. -/
theorem refuses_behind_path {c : Char} {f : Feature} (hc : c = '[' ∨ c = '|')
    (hends : EndsStep (w ++ c :: next)) (hf : Feature.detect? (c :: next) = some f) :
    Refuses (u ++ (t ++ (w ++ c :: next))) (.unsupported f, c :: next) := by
  have hplain : isBlank c = false ∧ Feature.isNameLike c = false ∧ c ≠ '/' ∧ c ≠ ':' ∧ c ≠ '(' := by
    rcases hc with rfl | rfl <;> decide +kernel
  obtain ⟨hblank, hlike, hslash, hcolon, hparen⟩ := hplain
  have hskip : skipBlanks (w ++ c :: next) = c :: next :=
    skipBlanks_append_cons (hA.blanks hw) hblank next
  have hunmarked : Feature.Unmarked (w ++ c :: next) := by
    apply Feature.unmarked_of_head <;> rw [hskip] <;> simpa
  have hstop : Stops Feature.isNameLike (w ++ c :: next) :=
    stops_append (fun d hd => Feature.isNameLike_of_isBlank (hA.isBlank (hw d hd)))
      (stops_cons.2 hlike)
  have hdetect : Feature.detect? (w ++ c :: next) = some f := by
    rw [Feature.detect?_blanks_append (hA.blanks hw), hf]
  refine refuses_of_spellsPath hA ht hlast (fun hu hs => ?_) hu
  have h := Refuses.noSlash (readStep?_append hA hu hs hends) hskip hslash
  rwa [diagnose_of_not_detect (detect?_step hA hu hs hunmarked hstop),
    diagnose_of_detect hdetect, hskip] at h

end

end

section
variable {A : Alphabet} (hA : A.Separate) {w : List Char} (hw : A.Blanks w)
include hA hw

theorem endsStep_position {d : Char} (hd : d.isDigit = true) (r : List Char) :
    EndsStep (w ++ '[' :: d :: r) := by
  have hat : d ≠ '@' := ne_of_apart hd (by decide)
  refine endsStep_append_cons hA hw (by decide) (by decide) (by decide) ?_
  apply readClause_of_no_comparison (skipBlanks_append_cons (hA.blanks hw) (by decide) (d :: r))
  rw [skipBlanks_of_stops (stops_cons.2 (Feature.isBlank_of_isDigit hd))]
  simpa using hat

theorem endsStep_bar (r : List Char) : EndsStep (w ++ '|' :: r) := by
  refine endsStep_append_cons hA hw (by decide) (by decide) (by decide) ?_
  apply readClause_of_head_ne
  rw [skipBlanks_append_cons (hA.blanks hw) (by decide)]
  simp

end

/-! ## accepted expressions that go on with a feature -/

section
variable {p : String} {path : Path} (hp : Path.parse p = .ok path)
  (hogham : oghamSpace ∉ p.toList) (helement : path.endsInAttribute = false)
include hp hogham helement

/-- An accepted expression to an element is a path between blanks, by the unambiguous alphabet. -/
theorem exists_spells_element : ∃ u t w, unambiguous.Blanks u ∧
    unambiguous.SpellsPath path.steps t ∧ unambiguous.Blanks w ∧ p.toList = u ++ (t ++ w) ∧
    ∀ s, path.steps.getLast? = some s → s.isAttribute = false := by
  have hwithin := within_of_not_mem fun h => hogham (mem_of_mem_unquoted h)
  obtain ⟨u, t, w, hu, ht, hw, htext⟩ := spells_of_parse_of_within clear_unambiguous hp hwithin
  refine ⟨u, t, w, hu, ht, hw, htext, fun s hs => ?_⟩
  rwa [Path.endsInAttribute, hs] at helement

theorem refusedFor_behind_slash {e : String} {text : List Char} {f : Feature}
    (he : e.toList = p.toList ++ '/' :: text) (h : Refuses text (.unsupported f, text)) :
    RefusedFor e (p.length + 1) f f.description := by
  obtain ⟨u, t, w, hu, ht, hw, htext, hlast⟩ := exists_spells_element hp hogham helement
  have htext' : e.toList = u ++ (t ++ (w ++ '/' :: text)) := by
    rw [he, htext, List.append_assoc, List.append_assoc]
  have hsplit : e.toList = (p.toList ++ ['/']) ++ text := by
    rw [he, List.append_assoc, List.singleton_append]
  have hrefuses := refuses_behind_slash clear_unambiguous hu ht hw hlast h
  have hslash := head_ne_slash_of_spellsPath clear_unambiguous hu ht (w ++ '/' :: text)
  rw [← htext'] at hrefuses hslash
  have h := refusedFor_of_refuses hsplit hslash hrefuses
  rwa [List.length_append, List.length_singleton, String.length_toList] at h

theorem refusedFor_behind_path {e : String} {c : Char} {next : List Char} {f : Feature}
    (he : e.toList = p.toList ++ c :: next) (hc : c = '[' ∨ c = '|')
    (hends : ∀ w, unambiguous.Blanks w → EndsStep (w ++ c :: next))
    (hf : Feature.detect? (c :: next) = some f) : RefusedFor e p.length f f.description := by
  obtain ⟨u, t, w, hu, ht, hw, htext, hlast⟩ := exists_spells_element hp hogham helement
  have htext' : e.toList = u ++ (t ++ (w ++ c :: next)) := by
    rw [he, htext, List.append_assoc, List.append_assoc]
  have hrefuses := refuses_behind_path clear_unambiguous hu ht hw hlast hc (hends w hw) hf
  have hslash := head_ne_slash_of_spellsPath clear_unambiguous hu ht (w ++ c :: next)
  rw [← htext'] at hrefuses hslash
  have h := refusedFor_of_refuses he hslash hrefuses
  rwa [String.length_toList] at h

/-- **The features behind a path.**  An accepted expression without ogham space marks that leads to
an element, and goes on with a feature of the full expression language, is refused for that
feature, whatever follows: a second slash; a name with the mark of an axis or of a call, a dot or
an asterisk behind a slash; a digit in brackets; a bar.  The place is that of the second slash, of
what is behind the slash, of the bracket or of the bar.  What is reported is the description of the
feature. -/
theorem refusedFor_behind {q : String} (hq : q ≠ "")
    (hlike : ∀ c ∈ q.toList, isAsciiNameLike c = true) {d : Char} (hd : d.isDigit = true)
    (r : String) :
    RefusedFor (p ++ "//" ++ r) (p.length + 1) .descendantShortcut
      "Descendant-or-self shortcuts (`//`)" ∧
    RefusedFor (p ++ "/" ++ q ++ "::" ++ r) (p.length + 1) .explicitAxis "Explicit axes" ∧
    RefusedFor (p ++ "/." ++ r) (p.length + 1) .abbreviatedStep
      "Abbreviated self and parent steps" ∧
    RefusedFor (p ++ "/*" ++ r) (p.length + 1) .wildcard "Wildcards" ∧
    RefusedFor (p ++ "/" ++ q ++ "(" ++ r) (p.length + 1) .callOrNodeTest
      "Function calls and node type tests" ∧
    RefusedFor (p ++ "[" ++ String.singleton d ++ r) p.length .positionalPredicate
      "Positional predicates" ∧
    RefusedFor (p ++ "|" ++ r) p.length .union "Unions" := by
  obtain ⟨c, n, hn⟩ : ∃ c n, q.toList = c :: n :=
    List.exists_cons_of_ne_nil fun h => hq (by rwa [String.toList_eq_nil_iff] at h)
  rw [hn] at hlike
  have hrun : ∀ e ∈ c :: n, Feature.isNameLike e = true := fun e he =>
    Feature.isNameLike_of_isAsciiNameLike (hlike e he)
  refine ⟨?_, ?_, ?_, ?_, ?_, ?_, ?_⟩
  · have h := refuses_of_not_start (by decide) (by decide) (by decide)
      (Feature.detect?_slash r.toList)
    exact refusedFor_behind_slash hp hogham helement (by simp) h
  · have h := refuses_of_marked hrun (.axis r.toList) (Feature.detect?_axis hrun r.toList)
    exact refusedFor_behind_slash hp hogham helement (by simp [hn]) h
  · have h := refuses_of_not_start (by decide) (by decide) (by decide)
      (Feature.detect?_dot r.toList)
    exact refusedFor_behind_slash hp hogham helement (by simp) h
  · have h := refuses_of_not_start (by decide) (by decide) (by decide)
      (Feature.detect?_asterisk r.toList)
    exact refusedFor_behind_slash hp hogham helement (by simp) h
  · have h := refuses_of_marked hrun (.call r.toList) (Feature.detect?_call hrun r.toList)
    exact refusedFor_behind_slash hp hogham helement (by simp [hn]) h
  · exact refusedFor_behind_path hp hogham helement (by simp) (.inl rfl)
      (fun w hw => endsStep_position clear_unambiguous.toSeparate hw hd r.toList)
      (Feature.detect?_position hd r.toList)
  · exact refusedFor_behind_path hp hogham helement (by simp) (.inr rfl)
      (fun w hw => endsStep_bar clear_unambiguous.toSeparate hw r.toList)
      (Feature.detect?_bar r.toList)

end

/-- Behind a path with a clause, in the literal of which there are features as well. -/
theorem refusedFor_behind_clause :
    ∃ path, Path.parse "a/b[@c='//|']\n" = .ok path ∧
      oghamSpace ∉ "a/b[@c='//|']\n".toList ∧ path.endsInAttribute = false ∧
      "self-1" ≠ "" ∧ (∀ c ∈ "self-1".toList, isAsciiNameLike c = true) ∧
      '7'.isDigit = true ∧
      RefusedFor "a/b[@c='//|']\n//d" 15 .descendantShortcut "Descendant-or-self shortcuts (`//`)" ∧
      RefusedFor "a/b[@c='//|']\n/self-1::d" 15 .explicitAxis "Explicit axes" ∧
      RefusedFor "a/b[@c='//|']\n/.d" 15 .abbreviatedStep "Abbreviated self and parent steps" ∧
      RefusedFor "a/b[@c='//|']\n/*d" 15 .wildcard "Wildcards" ∧
      RefusedFor "a/b[@c='//|']\n/self-1(d" 15 .callOrNodeTest
        "Function calls and node type tests" ∧
      RefusedFor "a/b[@c='//|']\n[7d" 14 .positionalPredicate "Positional predicates" ∧
      RefusedFor "a/b[@c='//|']\n|d" 14 .union "Unions" := by
  obtain ⟨path, hp, helement⟩ : ∃ path, Path.parse "a/b[@c='//|']\n" = .ok path ∧
      path.endsInAttribute = false := by
    refine exists_ok_of_toOption_map ?_
    decide +kernel
  have hogham : oghamSpace ∉ "a/b[@c='//|']\n".toList := by decide
  have hlike : ∀ c ∈ "self-1".toList, isAsciiNameLike c = true := by
    simp [isAsciiNameLike]
  exact ⟨path, hp, hogham, helement, by decide, hlike, by decide,
    refusedFor_behind hp hogham helement (by decide) hlike (d := '7') (by decide) "d"⟩

end XmlPaths

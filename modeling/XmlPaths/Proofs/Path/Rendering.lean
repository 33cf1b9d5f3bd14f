import XmlPaths.Path.Printer
import XmlPaths.Proofs.Path.Acceptance

/-!
# Canonical spellings are read back

The canonical spelling of a path is a path with the same steps.  Its only blanks are the spaces
around the `and` of a clause, so that nothing but the first character of a step can be taken for
one; it is if it is an ogham space mark behind which another name begins.

* `Step.Writable`          what the names and values of a step are made of;
* `ChildStep.Settled`      no shorter name could be found behind the blanks that a step begins with;
* `readSegments_spellSteps`   the spelling of steps is read as these steps;
* `writable_of_readSegments`  the steps that are read can be written;
* `parse_render_inverse`    reading and rendering are inverse to each other.
-/

namespace XmlPaths

open Alphabet

/-! ## what can be written -/

structure Comparison.Writable (k : Comparison) : Prop where
  name : full.IsName k.name.toList
  value : ∀ v ∈ k.value, '\'' ∉ v.toList ∨ '"' ∉ v.toList

structure ChildStep.Writable (s : ChildStep) : Prop where
  nsPrefix : ∀ p ∈ s.nsPrefix, full.IsName p.toList
  localName : full.IsName s.localName.toList
  comparisons : ∀ k ∈ s.comparisons, k.Writable

/-- The names of the step are names, and none of its values contains both quotes. -/
def Step.Writable : Step → Prop
  | .element s => s.Writable
  | .attribute n => full.IsName n.toList

/-- the name that the step begins with -/
def ChildStep.leading (s : ChildStep) : List Char := (s.nsPrefix.getD s.localName).toList

/-- Where the step begins with a character that could be skipped as a blank, no name begins behind
that character. -/
def ChildStep.Settled (s : ChildStep) : Prop :=
  ∀ c m, s.leading = c :: m → isBlank c = true → Stops isNameStart m

/-! ## spellings belong to the grammar -/

/-- the alphabet of canonical spellings; the space is their only blank -/
def Alphabet.spaced : Alphabet := { full with blank := (· == ' ') }

theorem separate_spaced : spaced.Separate := by
  refine ⟨fun h => ?_, fun h => h, fun h => h, fun h => ?_⟩
  · rw [eq_of_beq h]
    decide
  · rw [eq_of_beq h]
    decide

theorem quoteFor_not_mem {v : List Char} (h : '\'' ∉ v ∨ '"' ∉ v) : quoteFor v ∉ v := by
  unfold quoteFor
  split
  · next hv => exact h.resolve_left (not_not_intro hv)
  · assumption

theorem spellsLiteral_quoteFor {v : List Char} (h : '\'' ∉ v ∨ '"' ∉ v) :
    spaced.SpellsLiteral v (quoteFor v :: (v ++ [quoteFor v])) := by
  refine .intro ?_ (quoteFor_not_mem h) fun _ _ => rfl
  unfold quoteFor
  split
  · exact .inr rfl
  · exact .inl rfl

theorem Comparison.Writable.spells {k : Comparison} (hk : k.Writable) :
    spaced.SpellsComparison k k.spell := by
  obtain ⟨name, value⟩ := k
  have hname : spaced.IsName name.toList := hk.name
  rw [← String.ofList_toList (s := name)] at hk ⊢
  cases value with
  | none =>
    have h := SpellsComparison.present hname
    simpa [Comparison.spell] using h
  | some v =>
    have hl := spellsLiteral_quoteFor (hk.value v rfl)
    have h := SpellsComparison.demanded hname (A := spaced) (blanks_nil) (blanks_nil) hl
    simpa [Comparison.spell] using h

theorem joinWith_append_cons (sep a b : List Char) (rest : List (List Char)) :
    joinWith sep (a :: b :: rest) = a ++ (sep ++ joinWith sep (b :: rest)) := by
  rw [joinWith_cons_cons, List.append_assoc]

/-- the comparisons behind the first one -/
theorem exists_joints_spell {ks : List Comparison} (hks : ∀ k ∈ ks, k.Writable) :
    ∃ ts, spaced.SpellsJoints ks ts ∧
      ∀ t, joinWith " and ".toList (t :: ks.map Comparison.spell) = t ++ ts := by
  induction ks with
  | nil => exact ⟨[], .nil, fun t => (List.append_nil t).symm⟩
  | cons k ks ih =>
    obtain ⟨ts, hts, he⟩ := ih fun k hk => hks k (List.mem_cons_of_mem _ hk)
    have hspace : spaced.Blanks [' '] := blanks_cons rfl blanks_nil
    have hk := (hks k List.mem_cons_self).spells
    refine ⟨_, .cons hspace (by simp) hspace (by simp) hk hts, fun t => ?_⟩
    rw [List.map_cons, joinWith_append_cons, he]
    rfl

theorem spellsDemands_spell {ks : List Comparison} (hks : ∀ k ∈ ks, k.Writable) :
    spaced.SpellsDemands ks (spellClause ks) := by
  cases ks with
  | nil => exact .absent
  | cons k ks =>
    obtain ⟨ts, hts, he⟩ := exists_joints_spell fun k hk => hks k (List.mem_cons_of_mem _ hk)
    have hk := (hks k List.mem_cons_self).spells
    have hclause := SpellsClause.intro blanks_nil hk hts blanks_nil
    have hspell : spellClause (k :: ks) =
        [] ++ '[' :: ([] ++ (k.spell ++ (ts ++ ([] ++ [']'])))) := by
      rw [spellClause, List.map_cons, he]
      simp
    rw [hspell]
    exact .clause blanks_nil hclause

theorem spellPrefix_some {p : String} (hp : full.IsName p.toList) :
    spellPrefix (some p) = p.toList ++ [':'] := by
  have hne : p.isEmpty = false := by
    obtain ⟨c, cs, he, -⟩ := hp.exists_cons
    simp [← String.toList_inj, he]
  simp [spellPrefix, hne]

theorem ChildStep.Writable.spellsName {s : ChildStep} (hs : s.Writable) :
    spaced.SpellsName s.nsPrefix s.localName (spellPrefix s.nsPrefix ++ s.localName.toList) := by
  obtain ⟨p, l, ks⟩ := s
  have hl : spaced.IsName l.toList := hs.localName
  cases p with
  | none => simpa [spellPrefix] using SpellsName.bare hl
  | some p =>
    have hp : spaced.IsName p.toList := hs.nsPrefix p rfl
    rw [spellPrefix_some hp]
    simpa using SpellsName.qualified hp hl

theorem Step.Writable.spells {s : Step} (hs : s.Writable) : spaced.SpellsStep s s.spell := by
  cases s with
  | element s => exact .toElement hs.spellsName (spellsDemands_spell hs.comparisons)
  | «attribute» n =>
    have hn : spaced.IsName n.toList := hs
    simpa [Step.spell] using SpellsStep.toAttribute hn

/-! ## spellings are read back -/

theorem readStep?_eq_none {r : List Char}
    (h : ∀ c ∈ r.head?, isBlank c = false ∧ isNameStart c = false ∧ c ≠ '@') :
    readStep? r = none := by
  cases r with
  | nil => rfl
  | cons c r =>
    obtain ⟨hblank, hstart, hat⟩ := h c rfl
    rw [readStep?_of_not_blank hblank, readBareStep?_of_not_start hstart hat]

/-- A step is spelled with the name that it begins with, and then a colon, its clause or nothing. -/
theorem ChildStep.Writable.exists_spell_eq {s : ChildStep} (hs : s.Writable) :
    full.IsName s.leading ∧ ∃ y, s.spell = s.leading ++ y ∧ (∀ c ∈ y.head?, c = ':' ∨ c = '[') ∧
      (y = [] → s = ⟨none, String.ofList s.leading, []⟩) := by
  obtain ⟨p, l, ks⟩ := s
  cases p with
  | none =>
    refine ⟨hs.localName, spellClause ks, rfl, ?_, ?_⟩
    · cases ks <;> simp [spellClause]
    · cases ks <;> simp [spellClause, leading]
  | some p =>
    have hp := hs.nsPrefix p rfl
    refine ⟨hp, ':' :: (l.toList ++ spellClause ks), ?_, by simp, by simp⟩
    simp [ChildStep.spell, spellPrefix_some hp, leading]

/-- A step is spelled with a character that begins a name.  If that is a blank as well, nothing
that could begin a step follows it, nor a slash. -/
theorem ChildStep.Writable.exists_spell_eq_cons {s : ChildStep} (hs : s.Writable)
    (hsettled : s.Settled) :
    ∃ c t, s.spell = c :: t ∧ isNameStart c = true ∧ (t = [] → s = ⟨none, String.ofList [c], []⟩) ∧
      (isBlank c = true → ∀ d ∈ t.head?, isBlank d = false ∧ isNameStart d = false ∧
        d ≠ '@' ∧ d ≠ '/') := by
  obtain ⟨hname, y, hspell, hy, hbare⟩ := hs.exists_spell_eq
  obtain ⟨c, m, hm, hc, hchars⟩ := hname.exists_cons
  refine ⟨c, m ++ y, by rw [hspell, hm, List.cons_append], hc, ?_, fun hb d hd => ?_⟩
  · intro hnil
    obtain ⟨rfl, rfl⟩ := List.append_eq_nil_iff.1 hnil
    rw [← hm]
    exact hbare rfl
  · cases m with
    | nil => rcases hy d hd with rfl | rfl <;> decide
    | cons x m =>
      obtain rfl : x = d := by simpa using hd
      have hchar : isNameChar x = true := hchars x List.mem_cons_self
      have hstart : isNameStart x = false := stops_cons.1 (hsettled c (x :: m) hm hb)
      refine ⟨?_, hstart, ?_, ?_⟩
      · rw [Bool.eq_false_iff]
        intro hbx
        rw [eq_oghamSpace_of_isBlank_of_isNameChar hbx hchar] at hstart
        exact absurd hstart (by decide)
      · rintro rfl
        exact absurd hchar (by decide)
      · rintro rfl
        exact absurd hchar (by decide)

/-- A step is read from its spelling at the end of the text or before a slash. -/
theorem readStep?_spell {s : Step} (hs : s.Writable) (hsettled : ∀ e, s = .element e → e.Settled)
    {r : List Char} (hr : ∀ c ∈ r.head?, c = '/') : readStep? (s.spell ++ r) = some (s, r) := by
  have hstop : Stops isNameChar r := by
    intro c hc
    rw [hr c hc]
    decide
  have hcloses : Closes r := by
    intro c hc
    rw [skipBlanks_of_stops fun c hc => by rw [hr c hc]; decide] at hc
    exact hr c hc
  have hbare := readBareStep?_append separate_spaced hs.spells (hcloses.endsStep hstop)
  cases s with
  | «attribute» n => exact (readStep?_of_not_blank (by decide) _).trans hbare
  | element e =>
    obtain ⟨c, t, hspell, -, -, hbehind⟩ := hs.exists_spell_eq_cons (hsettled e rfl)
    have htext : (Step.element e).spell ++ r = c :: (t ++ r) := by
      show e.spell ++ r = _
      rw [hspell, List.cons_append]
    rw [htext] at hbare ⊢
    by_cases hb : isBlank c = true
    · -- behind the skipped character there is no step to be found
      have hnone : readStep? (t ++ r) = none := by
        refine readStep?_eq_none fun d hd => ?_
        cases t with
        | nil =>
          rw [hr d hd]
          decide
        | cons x t =>
          obtain ⟨hblank, hstart, hat, -⟩ := hbehind hb d hd
          exact ⟨hblank, hstart, hat⟩
      rw [readStep?_cons, hnone, ite_self, Option.none_or, hbare]
    · rw [readStep?_of_not_blank (by simpa using hb), hbare]

theorem spellSteps_cons_cons (s t : Step) (rest : List Step) :
    spellSteps (s :: t :: rest) = s.spell ++ '/' :: spellSteps (t :: rest) := by
  simp [spellSteps, joinWith]

/-- Steps that can be written; at most the last one of them is to an attribute. -/
structure Writable (steps : List Step) : Prop where
  ne_nil : steps ≠ []
  ordered : ∀ s ∈ steps.dropLast, s.isAttribute = false
  writable : ∀ s ∈ steps, s.Writable
  settled : ∀ e, .element e ∈ steps → e.Settled

/-- **The spelling of steps is read as these steps.** -/
theorem readSegments_spellSteps {steps : List Step} (h : Writable steps) (source : List Char) :
    ∃ segs, readSegments source (spellSteps steps) = .ok segs ∧
      segs.map Segment.step = steps := by
  obtain ⟨hne, hordered, hwritable, hsettled⟩ := h
  induction steps generalizing source with
  | nil => exact absurd rfl hne
  | cons s rest ih =>
    have hs := hwritable s List.mem_cons_self
    have hfirst : ∀ e, s = .element e → e.Settled := fun e he =>
      hsettled e (he ▸ List.mem_cons_self)
    cases rest with
    | nil =>
      have hread := readStep?_spell hs hfirst (r := []) (by simp)
      rw [List.append_nil] at hread
      exact ⟨_, readSegments_last hread skipBlanks_nil, rfl⟩
    | cons t rest =>
      have hread := readStep?_spell hs hfirst (r := '/' :: spellSteps (t :: rest)) (by simp)
      rw [← spellSteps_cons_cons] at hread
      have hmore := @readSegments_more source _ _ _ _ hread
        (skipBlanks_slash blanks_nil _) (hordered s List.mem_cons_self)
      obtain ⟨segs, hsegs, hsteps⟩ := ih ('/' :: spellSteps (t :: rest)) (by simp)
        (fun s hs => hordered s (List.mem_cons_of_mem _ hs))
        (fun s hs => hwritable s (List.mem_cons_of_mem _ hs))
        (fun e he => hsettled e (List.mem_cons_of_mem _ he))
      rw [hsegs] at hmore
      exact ⟨_, hmore, by rw [List.map_cons, hsteps]⟩

/-! ## the steps that are read can be written -/

theorem quote_not_mem_of_takeLiteral? {cs v r : List Char} (h : takeLiteral? cs = some (v, r)) :
    '\'' ∉ v ∨ '"' ∉ v := by
  simp only [takeLiteral?] at h
  split at h
  · exact .inl (not_mem_of_takeUntilQuote? h)
  · exact .inr (not_mem_of_takeUntilQuote? h)
  · exact absurd h (by simp)

theorem quote_not_mem_of_takeDemand? {cs v r : List Char} (h : takeDemand? cs = some (v, r)) :
    '\'' ∉ v ∨ '"' ∉ v := by
  simp only [takeDemand?] at h
  split at h
  · exact quote_not_mem_of_takeLiteral? h
  · exact absurd h (by simp)

theorem writable_of_takeComparison? {cs r : List Char} {k : Comparison}
    (h : takeComparison? cs = some (k, r)) : k.Writable := by
  simp only [takeComparison?] at h
  split at h
  · split at h
    · exact absurd h (by simp)
    · next n z hn =>
      obtain ⟨hname, -⟩ := isName_of_takeName? hn
      split at h
      · next v z' hv =>
        simp only [Option.some.injEq, Prod.mk.injEq] at h
        rw [← h.1]
        refine ⟨by simpa using hname, fun x hx => ?_⟩
        obtain rfl : String.ofList v = x := by simpa using hx
        simpa using quote_not_mem_of_takeDemand? hv
      · simp only [Option.some.injEq, Prod.mk.injEq] at h
        rw [← h.1]
        exact ⟨by simpa using hname, by simp⟩
  · exact absurd h (by simp)

theorem writable_of_mem_comparisonsIn {cs : List Char} {k : Comparison}
    (h : k ∈ comparisonsIn cs) : k.Writable := by
  fun_induction comparisonsIn cs with
  | case1 => exact absurd h (by simp)
  | case2 c cs k' r hk ih =>
    rcases List.mem_cons.1 h with rfl | h
    · exact writable_of_takeComparison? hk
    · exact ih h
  | case3 c cs _ ih => exact ih h

theorem writable_of_mem_readClause {z : List Char} {k : Comparison}
    (h : k ∈ (readClause z).1) : k.Writable := by
  simp only [readClause] at h
  split at h
  · exact writable_of_mem_comparisonsIn h
  · exact absurd h (by simp)

/-- In a clause there is a comparison to be found. -/
theorem comparisonsIn_ne_nil {ks : List Comparison} {t : List Char} (h : full.SpellsClause ks t) :
    comparisonsIn t ≠ [] := by
  cases h with
  | @intro k ks t ts u w hu hk _ _ =>
    obtain ⟨n, x, hn, rfl⟩ : ∃ n x, full.IsName n ∧ t = '@' :: (n ++ x) := by
      cases hk with
      | present hn => exact ⟨_, [], hn, by rw [List.append_nil]⟩
      | demanded hn _ _ _ => exact ⟨_, _, hn, rfl⟩
    have hsome : takeComparison? ('@' :: (n ++ (x ++ (ts ++ (w ++ [']']))))) ≠ none := by
      simp only [takeComparison?, takeName?_append hn]
      split <;> simp
    rw [comparisonsIn_cons_of_ne (by decide), comparisonsIn_blanks_append hu, List.cons_append,
      List.append_assoc, comparisonsIn]
    split
    · simp
    · next h => exact absurd h hsome

/-- Where no comparisons are read nothing is. -/
theorem readClause_eq_of_nil {z : List Char} (h : (readClause z).1 = []) :
    (readClause z).2 = z := by
  obtain ⟨u, ks, c, r, -, hc, -, hread⟩ | ⟨hread, -⟩ := readClause_cases z
  · rw [hread] at h
    exact absurd h (comparisonsIn_ne_nil hc)
  · rw [hread]

/-- The name that is read first is as long as possible. -/
theorem takeName?_of_readName? {cs z : List Char} {p : Option String} {l : String}
    (h : readName? cs = some ((p, l), z)) : ∃ r, takeName? cs = some ((p.getD l).toList, r) := by
  obtain ⟨n, r, m, hn, -, e⟩ | ⟨n, hn, -, e⟩ := readName?_cases h
  · obtain ⟨rfl, rfl⟩ := Prod.mk.inj e
    exact ⟨':' :: r, by simpa using hn⟩
  · obtain ⟨rfl, rfl⟩ := Prod.mk.inj e
    exact ⟨z, by simpa using hn⟩

theorem writable_of_readBareStep? {cs r : List Char} {s : Step}
    (h : readBareStep? cs = some (s, r)) : s.Writable := by
  obtain ⟨z, n, rfl, hn, rfl⟩ | ⟨p, l, z, hn, rfl, rfl⟩ := readBareStep?_cases h
  · have hname := (isName_of_takeName? hn).1
    simpa [Step.Writable] using hname
  · obtain ⟨q, hq, -⟩ := exists_spellsName_of_readName? hn
    have hks : ∀ k ∈ (readClause z).1, k.Writable := fun k => writable_of_mem_readClause
    cases hq with
    | bare hname => exact ⟨by simp, by simpa using hname, hks⟩
    | qualified hp hname => exact ⟨by simpa using hp, by simpa using hname, hks⟩

theorem readBareStep?_ne_none_of_start {c : Char} (hc : isNameStart c = true) (cs : List Char) :
    readBareStep? (c :: cs) ≠ none := by
  have hname : takeName? (c :: cs) ≠ none := by simp [takeName?, hc]
  have hread : readName? (c :: cs) ≠ none := by
    simp only [readName?]
    split
    · next h => exact absurd h hname
    · split <;> simp
    · simp
  obtain ⟨⟨⟨p, l⟩, z⟩, hz⟩ := Option.ne_none_iff_exists'.1 hread
  rw [readBareStep?_of_name hz]
  simp

theorem readStep?_ne_none_of_start {c : Char} (hc : isNameStart c = true) (cs : List Char) :
    readStep? (c :: cs) ≠ none := by
  rw [readStep?_cons]
  exact fun h => readBareStep?_ne_none_of_start hc cs (Option.or_eq_none_iff.1 h).2

theorem settled_of_readBareStep? {c : Char} {t r : List Char} {e : ChildStep}
    (h : readBareStep? (c :: t) = some (.element e, r))
    (hskip : isBlank c = true → readStep? t = none) : e.Settled := by
  intro d m hlead hb
  obtain ⟨z, n, -, -, e⟩ | ⟨p, l, z, hn, e, -⟩ := readBareStep?_cases h
  · exact absurd e (by simp)
  · obtain rfl := Step.element.inj e
    obtain ⟨x, hx⟩ := takeName?_of_readName? hn
    have hlead' : (p.getD l).toList = d :: m := hlead
    rw [hlead'] at hx
    obtain ⟨-, htext⟩ := isName_of_takeName? hx
    rw [List.cons_append, List.cons.injEq] at htext
    obtain ⟨rfl, rfl⟩ := htext
    -- a name that began behind the blank would have been read as a step
    intro f hf
    obtain ⟨m', rfl⟩ := List.head?_eq_some_iff.1 (Option.mem_def.1 hf)
    rw [Bool.eq_false_iff]
    intro hstart
    exact readStep?_ne_none_of_start hstart _ (hskip hb)

theorem writable_of_readSegments {source cs : List Char} {segs : List Segment}
    (h : readSegments source cs = .ok segs) : Writable (segs.map Segment.step) := by
  rw [readSegments_ok_iff] at h
  induction h with
  | @last source cs rest s hs _ =>
    obtain ⟨u, c, t, -, -, hbare, hskip⟩ := exists_readBareStep?_of_readStep? hs
    refine ⟨by simp, by simp, ?_, ?_⟩
    · simpa using writable_of_readBareStep? hbare
    · intro e he
      obtain rfl : .element e = s := by simpa using he
      exact settled_of_readBareStep? hbare hskip
  | @more source cs rest next s segs hs _ helement _ ih =>
    obtain ⟨u, c, t, -, -, hbare, hskip⟩ := exists_readBareStep?_of_readStep? hs
    refine ⟨by simp, ?_, ?_, ?_⟩
    · intro x hx
      rw [List.map_cons, List.dropLast_cons_of_ne_nil ih.ne_nil] at hx
      rcases List.mem_cons.1 hx with rfl | hx
      · exact helement
      · exact ih.ordered x hx
    · intro x hx
      rcases List.mem_cons.1 hx with rfl | hx
      · exact writable_of_readBareStep? hbare
      · exact ih.writable x hx
    · intro e hx
      rcases List.mem_cons.1 hx with hx | hx
      · obtain rfl : .element e = s := hx
        exact settled_of_readBareStep? hbare hskip
      · exact ih.settled e hx

/-! ## spellings are not absolute -/

theorem readBareStep?_of_no_demands {cs r : List Char} {l : String}
    (h : readBareStep? cs = some (.element ⟨none, l, []⟩, r)) : cs = l.toList ++ r := by
  obtain ⟨z, n, -, -, e⟩ | ⟨p, l', z, hn, e, rfl⟩ := readBareStep?_cases h
  · exact absurd e (by simp)
  · simp only [Step.element.injEq, ChildStep.mk.injEq] at e
    obtain ⟨rfl, rfl, hks⟩ := e
    obtain ⟨q, hq, rfl⟩ := exists_spellsName_of_readName? hn
    cases hq with
    | bare _ => rw [readClause_eq_of_nil hks.symm, String.toList_ofList]

/-- A first step that is but a name of blanks, in front of another one, is read from an absolute
expression only. -/
theorem head?_skipBlanks_of_readSegments {source cs : List Char} {segs : List Segment} {l : String}
    (hl : full.Blanks l.toList) {t : Step} {rest : List Step}
    (h : readSegments source cs = .ok segs)
    (hsteps : segs.map Segment.step = .element ⟨none, l, []⟩ :: t :: rest) :
    (skipBlanks cs).head? = some '/' := by
  rw [readSegments_ok_iff] at h
  cases h with
  | last hs _ => exact absurd (List.cons.inj hsteps).2 (by simp)
  | @more _ _ r next s segs hs hslash _ _ =>
    obtain rfl : s = .element ⟨none, l, []⟩ := (List.cons.inj hsteps).1
    obtain ⟨u, c, x, hu, rfl, hbare, -⟩ := exists_readBareStep?_of_readStep? hs
    rw [readBareStep?_of_no_demands hbare, skipBlanks_append hu, skipBlanks_append hl, hslash]
    rfl

/-- A spelling is absolute only if its first step is but a name of blanks, and not the last. -/
theorem exists_of_head?_skipBlanks_spellSteps {steps : List Step} (h : Writable steps)
    (hs : (skipBlanks (spellSteps steps)).head? = some '/') :
    ∃ c t rest, isBlank c = true ∧ steps = .element ⟨none, String.ofList [c], []⟩ :: t :: rest := by
  obtain ⟨s, rest, rfl⟩ := List.exists_cons_of_ne_nil h.ne_nil
  obtain ⟨r, hspell, hr⟩ : ∃ r, spellSteps (s :: rest) = s.spell ++ r ∧ (r ≠ [] → rest ≠ []) := by
    cases rest with
    | nil => exact ⟨[], (List.append_nil _).symm, by simp⟩
    | cons t rest => exact ⟨_, spellSteps_cons_cons s t rest, by simp⟩
  rw [hspell] at hs
  cases s with
  | «attribute» n =>
    rw [show (Step.attribute n).spell = '@' :: n.toList from rfl, List.cons_append,
      skipBlanks_of_stops (stops_cons.2 (by decide))] at hs
    exact absurd hs (by simp)
  | element e =>
    obtain ⟨c, t, he, hc, hbare, hbehind⟩ :=
      (h.writable _ List.mem_cons_self).exists_spell_eq_cons (h.settled e List.mem_cons_self)
    rw [show (Step.element e).spell = c :: t from he, List.cons_append] at hs
    by_cases hb : isBlank c = true
    · rw [skipBlanks_cons, if_pos hb] at hs
      cases t with
      | nil =>
        obtain ⟨x, rest, rfl⟩ : ∃ x rest', rest = x :: rest' := by
          refine List.exists_cons_of_ne_nil (hr ?_)
          rintro rfl
          exact absurd hs (by simp [skipBlanks_nil])
        exact ⟨c, x, rest, hb, by rw [hbare rfl]⟩
      | cons d t =>
        obtain ⟨hd, -, -, hslash⟩ := hbehind hb d rfl
        rw [List.cons_append, skipBlanks_of_stops (stops_cons.2 hd)] at hs
        exact absurd (Option.some.inj hs) hslash
    · rw [skipBlanks_of_stops (stops_cons.2 (by simpa using hb))] at hs
      obtain rfl : c = '/' := Option.some.inj hs
      exact absurd hc (by decide)

/-! ## reading and rendering -/

theorem parse_spellSteps {steps : List Step} (h : Writable steps)
    (hs : (skipBlanks (spellSteps steps)).head? ≠ some '/') :
    ∃ q, Path.parse (String.ofList (spellSteps steps)) = .ok q ∧ q.steps = steps := by
  obtain ⟨segs, hsegs, hsteps⟩ := readSegments_spellSteps h (spellSteps steps)
  refine ⟨⟨String.ofList (spellSteps steps), segs⟩, ?_, hsteps⟩
  rw [parse_of_not_isAbsolute (by rwa [String.toList_ofList]), String.toList_ofList, hsegs]

/-- The rendering of a path that was read is read as its steps. -/
theorem exists_parse_render {e : String} {p : Path} (hp : Path.parse e = .ok p) :
    ∃ q, Path.parse p.render = .ok q ∧ q.steps = p.steps := by
  obtain ⟨hhead, hsegs, -⟩ := readSegments_of_parse hp
  have hwritable : Writable p.steps := writable_of_readSegments hsegs
  refine parse_spellSteps hwritable fun hs => hhead ?_
  obtain ⟨c, t, rest, hc, hsteps⟩ := exists_of_head?_skipBlanks_spellSteps hwritable hs
  have hblanks : full.Blanks (String.ofList [c]).toList := by
    rw [String.toList_ofList]
    exact blanks_cons hc blanks_nil
  exact head?_skipBlanks_of_readSegments hblanks hsegs hsteps

/-- Paths that are taken for equal have the same steps. -/
theorem steps_eq_of_sameAs {e₁ e₂ : String} {p₁ p₂ : Path} (hp₁ : Path.parse e₁ = .ok p₁)
    (hp₂ : Path.parse e₂ = .ok p₂) (h : p₁.sameAs p₂ = true) : p₁.steps = p₂.steps := by
  obtain ⟨q₁, hq₁, hsteps₁⟩ := exists_parse_render hp₁
  obtain ⟨q₂, hq₂, hsteps₂⟩ := exists_parse_render hp₂
  rw [eq_of_beq h, hq₂] at hq₁
  rw [← hsteps₁, ← hsteps₂, Except.ok.inj hq₁]

theorem render_congr {p q : Path} (h : p.steps = q.steps) : p.render = q.render := by
  rw [Path.render, Path.render, h]

/-- **Reading and rendering are inverse to each other.**  The rendering of an accepted expression
is accepted, with the same steps and the same rendering.  Any steps, of which at most the last one
is to an attribute, are read back from their spelling, if their names are names, none of their
values contains both quotes and no step begins with a blank.  So two accepted expressions are
taken for equal iff their steps are the same. -/
theorem parse_render_inverse :
    (∀ e p, Path.parse e = .ok p →
      ∃ q, Path.parse p.render = .ok q ∧ q.steps = p.steps ∧ q.render = p.render) ∧
    (∀ steps : List Step, steps ≠ [] → (∀ s ∈ steps.dropLast, s.isAttribute = false) →
      (∀ s ∈ steps, s.Writable) → (∀ s, .element s ∈ steps → Stops isBlank s.leading) →
      ∃ q, Path.parse (String.ofList (spellSteps steps)) = .ok q ∧ q.steps = steps) ∧
    (∀ e₁ e₂ p₁ p₂, Path.parse e₁ = .ok p₁ → Path.parse e₂ = .ok p₂ →
      (p₁.sameAs p₂ = true ↔ p₁.steps = p₂.steps)) := by
  refine ⟨?_, ?_, ?_⟩
  · intro e p hp
    obtain ⟨q, hq, hsteps⟩ := exists_parse_render hp
    exact ⟨q, hq, hsteps, render_congr hsteps⟩
  · intro steps hne hordered hwritable hstops
    have hsettled : ∀ s, .element s ∈ steps → s.Settled := by
      intro s hs c m hlead hb
      have hc := hstops s hs c (by rw [hlead]; rfl)
      rw [hc] at hb
      exact absurd hb (by simp)
    have h : Writable steps := ⟨hne, hordered, hwritable, hsettled⟩
    refine parse_spellSteps h fun hs => ?_
    obtain ⟨c, t, rest, hc, rfl⟩ := exists_of_head?_skipBlanks_spellSteps h hs
    have hblank := hstops _ List.mem_cons_self c (by simp [ChildStep.leading])
    rw [hc] at hblank
    exact absurd hblank (by simp)
  · intro e₁ e₂ p₁ p₂ hp₁ hp₂
    exact ⟨steps_eq_of_sameAs hp₁ hp₂, fun h => beq_iff_eq.2 (render_congr h)⟩

/-- A prefix that is an ogham space mark, a value with brackets, an `and` and a quote, and several
kinds of blanks. -/
theorem parse_render_inverse_oghamSpace :
    (∃ p, Path.parse "\t\u1680:a [@b = \"'] and @c/\"\n] /@d" = .ok p ∧
      p.render = "\u1680:a[@b=\"'] and @c/\"]/@d" ∧
      ∃ q, Path.parse p.render = .ok q ∧ q.steps = p.steps ∧ q.render = p.render) ∧
    (∃ q, Path.parse "p:a[@b=\"'] and @c/\" and @\u1680]/@d" = .ok q ∧
      q.steps = [.element ⟨some "p", "a", [⟨"b", some "'] and @c/"⟩, ⟨"\u1680", none⟩]⟩,
        .attribute "d"]) ∧
    (∃ p₁ p₂, Path.parse "a[@b='x']" = .ok p₁ ∧ Path.parse " a [ @b = \"x\" ] " = .ok p₂ ∧
      p₁.sameAs p₂ = true ∧ p₁.steps = p₂.steps) := by
  refine ⟨?_, ?_, ?_⟩
  · obtain ⟨p, hp, hrender⟩ : ∃ p, Path.parse "\t\u1680:a [@b = \"'] and @c/\"\n] /@d" = .ok p ∧
        p.render = "\u1680:a[@b=\"'] and @c/\"]/@d" := by
      refine exists_ok_of_toOption_map ?_
      decide +kernel
    exact ⟨p, hp, hrender, parse_render_inverse.1 _ p hp⟩
  · have htext : String.ofList (spellSteps [.element ⟨some "p", "a", [⟨"b", some "'] and @c/"⟩,
        ⟨"\u1680", none⟩]⟩, .attribute "d"]) = "p:a[@b=\"'] and @c/\" and @\u1680]/@d" := by
      decide +kernel
    rw [← htext]
    have hname : ∀ c, isNameStart c = true → full.IsName (String.ofList [c]).toList := by
      intro c hc
      rw [String.toList_ofList]
      exact ⟨hc, fun d hd => absurd hd (by simp)⟩
    have hquote : '"' ∉ "'] and @c/".toList := by decide
    refine parse_render_inverse.2.1 _ (by simp) (by simp [Step.isAttribute]) ?_ ?_
    · intro s hs
      rcases List.mem_cons.1 hs with rfl | hs
      · refine ⟨fun p hp => ?_, hname 'a' (by decide), fun k hk => ?_⟩
        · rw [← Option.some.inj hp]
          exact hname 'p' (by decide)
        · rcases List.mem_cons.1 hk with rfl | hk
          · exact ⟨hname 'b' (by decide), fun v hv => .inr (by rwa [← Option.some.inj hv])⟩
          · rw [List.mem_singleton.1 hk]
            exact ⟨hname '\u1680' (by decide), by simp⟩
      · rw [List.mem_singleton.1 hs]
        exact hname 'd' (by decide)
    · intro s hs
      obtain rfl : s = ⟨some "p", "a", _⟩ := by simpa using hs
      exact stops_cons.2 (by decide)
  · obtain ⟨p₁, hp₁, hrender₁⟩ : ∃ p, Path.parse "a[@b='x']" = .ok p ∧ p.render = "a[@b='x']" := by
      refine exists_ok_of_toOption_map ?_
      decide +kernel
    obtain ⟨p₂, hp₂, hrender₂⟩ : ∃ p, Path.parse " a [ @b = \"x\" ] " = .ok p ∧
        p.render = "a[@b='x']" := by
      refine exists_ok_of_toOption_map ?_
      decide +kernel
    have hsame : p₁.sameAs p₂ = true := by rw [Path.sameAs, hrender₁, hrender₂, beq_self_eq_true]
    exact ⟨p₁, p₂, hp₁, hp₂, hsame, (parse_render_inverse.2.2 _ _ p₁ p₂ hp₁ hp₂).1 hsame⟩

end XmlPaths

import XmlPaths.Proofs.Path.Lexing

/-!
# Expressions with fewer kinds of characters

An expression that has only some of the characters outside of its literals, and only some inside,
is spelled over the alphabet of these characters.

* `unquoted`                    the characters outside of literals;
* `Alphabet.restrict`           fewer characters outside of literals, and other ones inside;
* `Alphabet.unambiguous`        no character that is both a blank and part of a name;
* `Alphabet.Spells.restrict`    an expression with these characters only is spelled with them.
-/

namespace XmlPaths

/-- The characters of a text that stand outside of literals, the quotes left out; `q` is the quote
of the literal that the text begins in, if it begins in one. -/
def unquoted (q : Option Char) : List Char → List Char
  | [] => []
  | c :: cs =>
    match q with
    | none => if c = '\'' ∨ c = '"' then unquoted (some c) cs else c :: unquoted none cs
    | some q => unquoted (if c = q then none else some q) cs

theorem mem_of_mem_unquoted {c : Char} {q : Option Char} {t : List Char}
    (h : c ∈ unquoted q t) : c ∈ t := by
  induction t generalizing q with
  | nil => exact absurd h (by simp [unquoted])
  | cons d t ih =>
    cases q with
    | some q =>
      simp only [unquoted] at h
      exact List.mem_cons_of_mem _ (ih h)
    | none =>
      simp only [unquoted] at h
      split at h
      · exact List.mem_cons_of_mem _ (ih h)
      · rcases List.mem_cons.1 h with rfl | h
        · exact List.mem_cons_self
        · exact List.mem_cons_of_mem _ (ih h)

/-- no literal that begins in the text goes on behind it -/
def Closed (t : List Char) : Prop :=
  ∀ r, unquoted none (t ++ r) = unquoted none t ++ unquoted none r

theorem Closed.append {s t : List Char} (hs : Closed s) (ht : Closed t) : Closed (s ++ t) := by
  intro r
  rw [List.append_assoc, hs, ht, hs t, List.append_assoc]

theorem unquoted_cons {c : Char} (hc : c ≠ '\'') (hc' : c ≠ '"') (cs : List Char) :
    unquoted none (c :: cs) = c :: unquoted none cs := by
  simp [unquoted, hc, hc']

theorem closed_nil : Closed [] := fun _ => rfl

theorem Closed.cons {c : Char} {t : List Char} (hc : c ≠ '\'') (hc' : c ≠ '"') (ht : Closed t) :
    Closed (c :: t) := by
  intro r
  rw [List.cons_append, unquoted_cons hc hc', unquoted_cons hc hc', ht, List.cons_append]

/-- inside of a literal nothing but its quote counts -/
theorem unquoted_content {q : Char} {v : List Char} (hv : q ∉ v) (r : List Char) :
    unquoted (some q) (v ++ q :: r) = unquoted none r := by
  induction v with
  | nil => simp [unquoted]
  | cons c v ih =>
    have hc : c ≠ q := fun e => hv (by simp [e])
    have hv' : q ∉ v := fun h => hv (List.mem_cons_of_mem _ h)
    simpa [unquoted, hc] using ih hv'

namespace Alphabet

open XmlPaths (isBlank isNameChar)

/-- the alphabet with fewer characters outside of literals, and the given ones inside -/
def restrict (A : Alphabet) (p content : Char → Bool) : Alphabet where
  blank c := A.blank c && p c
  nameStart c := A.nameStart c && p c
  nameChar c := A.nameChar c && p c
  content := content

section
variable {p content : Char → Bool}

theorem clear_restrict (hp : ∀ c, p c = true → c ≠ oghamSpace) :
    (full.restrict p content).Clear := by
  have hapart : ∀ {c}, p c = true → isBlank c = true → isNameChar c = false := by
    intro c hc hb
    rw [Bool.eq_false_iff]
    intro hn
    exact hp c hc (eq_oghamSpace_of_isBlank_of_isNameChar hb hn)
  refine ⟨⟨?_, ?_, ?_, ?_⟩, ?_⟩ <;> intro c hc <;> rw [restrict, Bool.and_eq_true] at hc
  · exact hc.1
  · exact hc.1
  · exact hc.1
  · exact hapart hc.2 hc.1
  · rw [Bool.eq_false_iff]
    intro hb
    have hstart : isNameStart c = true := hc.1
    have hn := hapart hc.2 hb
    rw [XmlPaths.isNameChar, hstart] at hn
    exact absurd hn (by simp)

/-- a part of an expression with the characters of a class outside of literals, and those of
another one everywhere -/
structure Within (p content : Char → Bool) (t : List Char) : Prop where
  outside : ∀ c ∈ unquoted none t, p c = true
  everywhere : ∀ c ∈ t, content c = true

theorem within_append {s t : List Char} (hs : Closed s) :
    Within p content (s ++ t) ↔ Within p content s ∧ Within p content t := by
  constructor
  · intro h
    have ho := h.outside
    rw [hs] at ho
    exact ⟨⟨fun c hc => ho c (List.mem_append_left _ hc),
        fun c hc => h.everywhere c (List.mem_append_left _ hc)⟩,
      ⟨fun c hc => ho c (List.mem_append_right _ hc),
        fun c hc => h.everywhere c (List.mem_append_right _ hc)⟩⟩
  · rintro ⟨hs', ht⟩
    refine ⟨fun c hc => ?_, fun c hc => ?_⟩
    · rw [hs] at hc
      rcases List.mem_append.1 hc with hc | hc
      · exact hs'.outside c hc
      · exact ht.outside c hc
    · rcases List.mem_append.1 hc with hc | hc
      · exact hs'.everywhere c hc
      · exact ht.everywhere c hc

theorem within_cons {c : Char} {t : List Char} (hc : c ≠ '\'') (hc' : c ≠ '"') :
    Within p content (c :: t) ↔ (p c = true ∧ content c = true) ∧ Within p content t := by
  have h : Within p content [c] ↔ p c = true ∧ content c = true := by
    constructor
    · intro h
      exact ⟨h.outside c (by simp [unquoted_cons hc hc']), h.everywhere c (by simp)⟩
    · rintro ⟨hp, hcontent⟩
      refine ⟨fun d hd => ?_, fun d hd => ?_⟩
      · rw [unquoted_cons hc hc'] at hd
        obtain rfl : d = c := by simpa [unquoted] using hd
        exact hp
      · obtain rfl : d = c := by simpa using hd
        exact hcontent
  rw [← List.singleton_append, within_append (closed_nil.cons hc hc'), h]

/-! ## expressions without the ogham space mark -/

/-- the alphabet of path expressions without the ogham space mark outside of literals, the only
character that could be both a blank and part of a name -/
def unambiguous : Alphabet := full.restrict (· != oghamSpace) fun _ => true

theorem clear_unambiguous : unambiguous.Clear :=
  clear_restrict fun c hc => by simpa using hc

theorem within_of_not_mem {t : List Char} (h : oghamSpace ∉ unquoted none t) :
    Within (· != oghamSpace) (fun _ => true) t := by
  refine ⟨fun c hc => ?_, fun _ _ => rfl⟩
  have hne : c ≠ oghamSpace := fun hog => h (hog ▸ hc)
  simpa using hne

/-! ## runs without quotes -/

theorem closed_of_no_quotes {t : List Char} (h : ∀ c ∈ t, c ≠ '\'' ∧ c ≠ '"') : Closed t := by
  induction t with
  | nil => exact closed_nil
  | cons c t ih =>
    exact (ih fun d hd => h d (List.mem_cons_of_mem _ hd)).cons (h c (by simp)).1
      (h c (by simp)).2

theorem unquoted_of_no_quotes {t : List Char} (h : ∀ c ∈ t, c ≠ '\'' ∧ c ≠ '"') :
    unquoted none t = t := by
  induction t with
  | nil => rfl
  | cons c t ih =>
    rw [unquoted_cons (h c (by simp)).1 (h c (by simp)).2,
      ih fun d hd => h d (List.mem_cons_of_mem _ hd)]

theorem no_quotes_of_blanks {u : List Char} (hu : full.Blanks u) :
    ∀ c ∈ u, c ≠ '\'' ∧ c ≠ '"' := by
  intro c hc
  have hb : isBlank c = true := hu c hc
  constructor <;> (rintro rfl; revert hb; decide)

theorem no_quotes_of_isName {n : List Char} (hn : full.IsName n) :
    ∀ c ∈ n, c ≠ '\'' ∧ c ≠ '"' := by
  intro c hc
  have hc' : isNameChar c = true := isNameChar_of_isName hn c hc
  constructor <;> (rintro rfl; revert hc'; decide)

theorem Blanks.closed {u : List Char} (hu : full.Blanks u) : Closed u :=
  closed_of_no_quotes (no_quotes_of_blanks hu)

theorem IsName.closed {n : List Char} (hn : full.IsName n) : Closed n :=
  closed_of_no_quotes (no_quotes_of_isName hn)

theorem Blanks.restrict {u : List Char} (hu : full.Blanks u) (h : Within p content u) :
    (full.restrict p content).Blanks u := by
  intro c hc
  have hp : p c = true := h.outside c (by rwa [unquoted_of_no_quotes (no_quotes_of_blanks hu)])
  have hb : full.blank c = true := hu c hc
  simp [Alphabet.restrict, hb, hp]

theorem IsName.restrict {n : List Char} (hn : full.IsName n) (h : Within p content n) :
    (full.restrict p content).IsName n := by
  have hp : ∀ c ∈ n, p c = true := fun c hc =>
    h.outside c (by rwa [unquoted_of_no_quotes (no_quotes_of_isName hn)])
  obtain ⟨c, cs, rfl, hc, hcs⟩ := hn.exists_cons
  refine ⟨?_, fun d hd => ?_⟩
  · simp [Alphabet.restrict, hc, hp c (by simp)]
  · simp [Alphabet.restrict, hcs d hd, hp d (List.mem_cons_of_mem _ hd)]

/-! ## the parts of expressions -/

theorem SpellsLiteral.closed {v l : List Char} (h : full.SpellsLiteral v l) : Closed l := by
  intro r
  cases h with
  | @intro q _ hq hv _ =>
    have h1 := unquoted_content hv r
    have h2 := unquoted_content hv []
    simp only [unquoted] at h2
    simp only [List.cons_append, List.append_assoc, unquoted, hq, if_true, List.nil_append, h1, h2]

theorem SpellsLiteral.restrict {v l : List Char} (h : full.SpellsLiteral v l)
    (hl : Within p content l) : (full.restrict p content).SpellsLiteral v l := by
  cases h with
  | intro hq hv _ => exact .intro hq hv fun c hc => hl.everywhere c (by simp [hc])

theorem SpellsComparison.closed {k : Comparison} {t : List Char}
    (h : full.SpellsComparison k t) : Closed t := by
  cases h with
  | present hn => exact hn.closed.cons (by decide) (by decide)
  | demanded hn hu hw hl =>
    exact (hn.closed.append (hu.closed.append
      ((hw.closed.append hl.closed).cons (by decide) (by decide)))).cons (by decide) (by decide)

theorem SpellsComparison.restrict {k : Comparison} {t : List Char}
    (h : full.SpellsComparison k t) (ht : Within p content t) :
    (full.restrict p content).SpellsComparison k t := by
  cases h with
  | present hn =>
    rw [within_cons (by decide) (by decide)] at ht
    exact .present (hn.restrict ht.2)
  | demanded hn hu hw hl =>
    rw [within_cons (by decide) (by decide), within_append hn.closed, within_append hu.closed,
      within_cons (by decide) (by decide), within_append hw.closed] at ht
    obtain ⟨-, hn', hu', -, hw', hl'⟩ := ht
    exact .demanded (hn.restrict hn') (hu.restrict hu') (hw.restrict hw') (hl.restrict hl')

theorem SpellsJoints.closed {ks : List Comparison} {t : List Char}
    (h : full.SpellsJoints ks t) : Closed t := by
  induction h with
  | nil => exact closed_nil
  | cons hu _ hw _ hk _ ih =>
    have h1 := hw.closed.append (hk.closed.append ih)
    exact hu.closed.append (((h1.cons (by decide) (by decide)).cons (by decide)
      (by decide)).cons (by decide) (by decide))

theorem SpellsJoints.restrict {ks : List Comparison} {t : List Char}
    (h : full.SpellsJoints ks t) (ht : Within p content t) :
    (full.restrict p content).SpellsJoints ks t := by
  induction h with
  | nil => exact .nil
  | cons hu hu' hw hw' hk _ ih =>
    rw [within_append hu.closed, within_cons (by decide) (by decide),
      within_cons (by decide) (by decide), within_cons (by decide) (by decide),
      within_append hw.closed, within_append hk.closed] at ht
    obtain ⟨hu₁, -, -, -, hw₁, hk₁, hks₁⟩ := ht
    exact .cons (hu.restrict hu₁) hu' (hw.restrict hw₁) hw' (hk.restrict hk₁) (ih hks₁)

theorem SpellsClause.closed {ks : List Comparison} {t : List Char}
    (h : full.SpellsClause ks t) : Closed t := by
  cases h with
  | intro hu hk hks hw =>
    have h1 := hw.closed.append (closed_nil.cons (c := ']') (by decide) (by decide))
    exact (hu.closed.append (hk.closed.append (hks.closed.append h1))).cons (by decide)
      (by decide)

theorem SpellsClause.restrict {ks : List Comparison} {t : List Char}
    (h : full.SpellsClause ks t) (ht : Within p content t) :
    (full.restrict p content).SpellsClause ks t := by
  cases h with
  | intro hu hk hks hw =>
    rw [within_cons (by decide) (by decide), within_append hu.closed, within_append hk.closed,
      within_append hks.closed, within_append hw.closed] at ht
    obtain ⟨-, hu', hk', hks', hw', -⟩ := ht
    exact .intro (hu.restrict hu') (hk.restrict hk') (hks.restrict hks') (hw.restrict hw')

theorem SpellsName.closed {q : Option String} {l : String} {t : List Char}
    (h : full.SpellsName q l t) : Closed t := by
  cases h with
  | bare hn => exact hn.closed
  | qualified hp hn => exact hp.closed.append (hn.closed.cons (by decide) (by decide))

theorem SpellsName.restrict {q : Option String} {l : String} {t : List Char}
    (h : full.SpellsName q l t) (ht : Within p content t) :
    (full.restrict p content).SpellsName q l t := by
  cases h with
  | bare hn => exact .bare (hn.restrict ht)
  | qualified hp hn =>
    rw [within_append hp.closed, within_cons (by decide) (by decide)] at ht
    exact .qualified (hp.restrict ht.1) (hn.restrict ht.2.2)

theorem SpellsDemands.closed {ks : List Comparison} {d : List Char}
    (h : full.SpellsDemands ks d) : Closed d := by
  cases h with
  | absent => exact closed_nil
  | clause hu ht => exact hu.closed.append ht.closed

theorem SpellsDemands.restrict {ks : List Comparison} {d : List Char}
    (h : full.SpellsDemands ks d) (hd : Within p content d) :
    (full.restrict p content).SpellsDemands ks d := by
  cases h with
  | absent => exact .absent
  | clause hu ht =>
    rw [within_append hu.closed] at hd
    exact .clause (hu.restrict hd.1) (ht.restrict hd.2)

theorem SpellsStep.closed {s : Step} {t : List Char} (h : full.SpellsStep s t) : Closed t := by
  cases h with
  | toAttribute hn => exact hn.closed.cons (by decide) (by decide)
  | toElement hq hd => exact hq.closed.append hd.closed

theorem SpellsStep.restrict {s : Step} {t : List Char} (h : full.SpellsStep s t)
    (ht : Within p content t) : (full.restrict p content).SpellsStep s t := by
  cases h with
  | toAttribute hn =>
    rw [within_cons (by decide) (by decide)] at ht
    exact .toAttribute (hn.restrict ht.2)
  | toElement hq hd =>
    rw [within_append hq.closed] at ht
    exact .toElement (hq.restrict ht.1) (hd.restrict ht.2)

theorem SpellsPath.closed {steps : List Step} {t : List Char} (h : full.SpellsPath steps t) :
    Closed t := by
  induction h with
  | last hs => exact hs.closed
  | more hs hu hw _ ih =>
    exact hs.closed.append (hu.closed.append ((hw.closed.append ih).cons (by decide) (by decide)))

theorem SpellsPath.restrict {steps : List Step} {t : List Char} (h : full.SpellsPath steps t)
    (ht : Within p content t) : (full.restrict p content).SpellsPath steps t := by
  induction h with
  | last hs => exact .last (hs.restrict ht)
  | more hs hu hw _ ih =>
    rw [within_append hs.closed, within_append hu.closed, within_cons (by decide) (by decide),
      within_append hw.closed] at ht
    obtain ⟨hs', hu', -, hw', hr'⟩ := ht
    exact .more (hs.restrict hs') (hu.restrict hu') (hw.restrict hw') (ih hr')

theorem Spells.restrict {steps : List Step} {cs : List Char} (h : full.Spells steps cs)
    (hcs : Within p content cs) : (full.restrict p content).Spells steps cs := by
  obtain ⟨u, t, w, hu, ht, hw, rfl⟩ := h
  rw [within_append hu.closed, within_append ht.closed] at hcs
  exact ⟨u, t, w, hu.restrict hcs.1, ht.restrict hcs.2.1, hw.restrict hcs.2.2, rfl⟩

end

end Alphabet

end XmlPaths

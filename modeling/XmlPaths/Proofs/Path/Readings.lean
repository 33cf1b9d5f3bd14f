import XmlPaths.Proofs.Path.Beginnings

/-!
# The readings of all accepted expressions

An expression in which a character is both a blank and part of a name can be spelled in several
ways, and the way in which it is read is not always one of them.  A beginning of it without such
characters outside of literals is still spelled with the steps that were read.

* `Guarded`                 texts that spell something if they have certain characters only;
* `Alphabet.Leads`          texts that a further step can be put behind;
* `spells_of_parse_of_within`, `spells_beginning`   what expressions and their beginnings spell.
-/

namespace XmlPaths

open Alphabet

/-- A text in which no literal is left open, of which something holds if it has characters of the
two classes only. -/
structure Guarded (p content : Char → Bool) (P : Prop) (t : List Char) : Prop where
  closed : Closed t
  holds : Within p content t → P

section
variable {p content : Char → Bool} (hA : (full.restrict p content).Clear)
include hA

/-! ## steps -/

theorem exists_guarded_readClause (cs : List Char) :
    ∃ d, Guarded p content ((full.restrict p content).SpellsDemands (readClause cs).1 d) d ∧
      cs = d ++ (readClause cs).2 := by
  obtain ⟨u, ks, c, r, hu, hc, rfl, hread⟩ | ⟨hread, -⟩ := readClause_cases cs
  · rw [hread]
    refine ⟨u ++ c, ⟨hu.closed.append hc.closed, fun hwithin => ?_⟩, by rw [List.append_assoc]⟩
    rw [within_append hu.closed] at hwithin
    have hc' := hc.restrict hwithin.2
    rw [comparisonsIn_of_clause hA.toSeparate hc']
    exact .clause (hu.restrict hwithin.1) hc'
  · rw [hread]
    exact ⟨[], ⟨closed_nil, fun _ => .absent⟩, rfl⟩

theorem exists_guarded_readBareStep? {cs r : List Char} {s : Step}
    (h : readBareStep? cs = some (s, r)) :
    ∃ t, Guarded p content ((full.restrict p content).SpellsStep s t) t ∧ cs = t ++ r := by
  obtain ⟨z, n, rfl, hn, rfl⟩ | ⟨q, l, z, hn, rfl, rfl⟩ := readBareStep?_cases h
  · obtain ⟨hname, rfl⟩ := isName_of_takeName? hn
    have hstep : full.SpellsStep (.attribute (String.ofList n)) ('@' :: n) := .toAttribute hname
    exact ⟨_, ⟨hstep.closed, hstep.restrict⟩, rfl⟩
  · obtain ⟨t, hname, rfl⟩ := exists_spellsName_of_readName? hn
    obtain ⟨d, hd, hr⟩ := exists_guarded_readClause hA z
    refine ⟨t ++ d, ⟨hname.closed.append hd.closed, fun hwithin => ?_⟩, ?_⟩
    · rw [within_append hname.closed] at hwithin
      exact .toElement (hname.restrict hwithin.1) (hd.holds hwithin.2)
    · rw [List.append_assoc, ← hr]

theorem exists_guarded_readStep? {cs r : List Char} {s : Step} (h : readStep? cs = some (s, r)) :
    ∃ u t, full.Blanks u ∧
      Guarded p content ((full.restrict p content).SpellsStep s t) t ∧ cs = u ++ (t ++ r) := by
  obtain ⟨u, c, m, hu, rfl, hs, -⟩ := exists_readBareStep?_of_readStep? h
  obtain ⟨t, ht, hm⟩ := exists_guarded_readBareStep? hA hs
  exact ⟨u, t, hu, ht, by rw [hm]⟩

end

/-! ## beginnings -/

/-- a text of blanks and the steps `pre`, behind which a further step goes on with the path -/
def Alphabet.Leads (A : Alphabet) (pre : List Step) (text : List Char) : Prop :=
  ∃ u r, text = u ++ r ∧ A.Blanks u ∧ ∀ s t, A.SpellsStep s t → A.SpellsPath (pre ++ [s]) (r ++ t)

namespace Alphabet.Leads

variable {A : Alphabet} {pre : List Step} {text t : List Char}

theorem of_blanks {u : List Char} (hu : A.Blanks u) : A.Leads [] u :=
  ⟨u, [], by rw [List.append_nil], hu, fun _ _ hs => .last hs⟩

theorem spells (h : A.Leads pre text) {s : Step} (hs : A.SpellsStep s t) :
    A.Spells (pre ++ [s]) (text ++ t) := by
  obtain ⟨u, r, rfl, hu, hr⟩ := h
  refine ⟨u, r ++ t, [], hu, hr s t hs, blanks_nil, ?_⟩
  rw [List.append_assoc, List.append_nil]

theorem more (h : A.Leads pre text) (hpre : ∀ s ∈ pre, s.isAttribute = false) {s : ChildStep}
    (hs : A.SpellsStep (.element s) t) {x y : List Char} (hx : A.Blanks x) (hy : A.Blanks y) :
    A.Leads (pre ++ [.element s]) (text ++ (t ++ (x ++ '/' :: y))) := by
  obtain ⟨u, r, rfl, hu, hr⟩ := h
  refine ⟨u, r ++ (t ++ (x ++ '/' :: y)), by rw [List.append_assoc], hu, fun s' t' hs' => ?_⟩
  have happ : r ++ (t ++ (x ++ '/' :: y)) ++ t' = r ++ t ++ (x ++ '/' :: (y ++ t')) := by
    simp only [List.append_assoc, List.cons_append]
  rw [happ]
  exact (hr _ t hs).snoc (elements_concat hpre s) hs' hx hy

end Alphabet.Leads

section
variable {p content : Char → Bool}

/-- a text that leads to a further step behind any blanks, if it has certain characters only -/
def Introduces (p content : Char → Bool) (pre : List Step) (text : List Char) : Prop :=
  Guarded p content (∀ y, (full.restrict p content).Blanks y →
    (full.restrict p content).Leads pre (text ++ y)) text

namespace Introduces

variable {pre : List Step} {text u t : List Char} {s : Step} (h : Introduces p content pre text)
  (hu : full.Blanks u) (ht : Guarded p content ((full.restrict p content).SpellsStep s t) t)
include h hu ht

theorem spells : Guarded p content ((full.restrict p content).Spells (pre ++ [s])
    (text ++ (u ++ t))) (text ++ (u ++ t)) where
  closed := h.closed.append (hu.closed.append ht.closed)
  holds := by
    intro hwithin
    rw [within_append h.closed, within_append hu.closed] at hwithin
    obtain ⟨hwithin, hu', ht'⟩ := hwithin
    rw [← List.append_assoc]
    exact (h.holds hwithin u (hu.restrict hu')).spells (ht.holds ht')

theorem more (hpre : ∀ s ∈ pre, s.isAttribute = false) (hs : s.isAttribute = false)
    {x : List Char} (hx : full.Blanks x) :
    Introduces p content (pre ++ [s]) (text ++ (u ++ t) ++ (x ++ ['/'])) where
  closed := (h.spells hu ht).closed.append
    (hx.closed.append (closed_nil.cons (by decide) (by decide)))
  holds := by
    intro hwithin y hy
    rw [within_append (h.spells hu ht).closed, within_append h.closed, within_append hu.closed,
      within_append hx.closed] at hwithin
    obtain ⟨⟨hwithin, hu', ht'⟩, hx', -⟩ := hwithin
    obtain ⟨s, rfl⟩ := Step.exists_eq_element hs
    have hmore := (h.holds hwithin u (hu.restrict hu')).more hpre (ht.holds ht')
      (hx.restrict hx') hy
    have happ : text ++ (u ++ t) ++ (x ++ ['/']) ++ y = text ++ u ++ (t ++ (x ++ '/' :: y)) := by
      simp only [List.append_assoc, List.cons_append, List.nil_append]
    rw [happ]
    exact hmore

end Introduces

theorem toList_append_consumed (before : String) (lead u t rest : List Char) :
    (before ++ String.ofList (consumed (lead ++ (u ++ (t ++ rest))) rest)).toList =
      before.toList ++ lead ++ (u ++ t) := by
  have hconsumed : consumed (lead ++ (u ++ (t ++ rest))) rest = lead ++ (u ++ t) := by
    simpa using consumed_append (lead ++ (u ++ t)) rest
  rw [hconsumed, String.toList_append, String.toList_ofList, List.append_assoc]

variable (hA : (full.restrict p content).Clear)
include hA

/-- What ends with a segment is spelled with the steps up to it.  Before the segments there is the
text `before`, and `lead` up to behind the separator. -/
theorem spells_beginning_of_readSegments {source cs : List Char} {segs : List Segment}
    (h : readSegments source cs = .ok segs) {before : String} {lead : List Char}
    (hsource : source = lead ++ cs) {pre : List Step} (hpre : ∀ s ∈ pre, s.isAttribute = false)
    (hlead : Introduces p content pre (before.toList ++ lead))
    {found missing : List (String × Step)} {c : String} {s : Step}
    (hb : beginningsFrom before segs = found ++ (c, s) :: missing) :
    (∃ z, before.toList ++ source = c.toList ++ z) ∧
      Guarded p content
        ((full.restrict p content).Spells (pre ++ (found.map Prod.snd ++ [s])) c.toList)
        c.toList := by
  rw [readSegments_ok_iff] at h
  induction h generalizing before lead pre found with
  | @last source cs rest s' hs _ =>
    obtain ⟨u, t, hu, ht, rfl⟩ := exists_guarded_readStep? hA hs
    subst hsource
    rw [beginningsFrom_cons, beginningsFrom_nil] at hb
    cases found with
    | cons b found => exact absurd (List.cons.inj hb).2 (by simp)
    | nil =>
      rw [List.nil_append, List.cons.injEq, Prod.mk.injEq] at hb
      obtain ⟨⟨rfl, rfl⟩, -⟩ := hb
      rw [toList_append_consumed]
      refine ⟨⟨rest, ?_⟩, hlead.spells hu ht⟩
      simp only [List.append_assoc]
  | @more source cs rest next s' segs hs hslash helement _ ih =>
    obtain ⟨u, t, hu, ht, rfl⟩ := exists_guarded_readStep? hA hs
    subst hsource
    rw [beginningsFrom_cons] at hb
    cases found with
    | nil =>
      rw [List.nil_append, List.cons.injEq, Prod.mk.injEq] at hb
      obtain ⟨⟨rfl, rfl⟩, -⟩ := hb
      rw [toList_append_consumed]
      refine ⟨⟨rest, ?_⟩, hlead.spells hu ht⟩
      simp only [List.append_assoc]
    | cons b found =>
      rw [List.cons_append, List.cons.injEq] at hb
      obtain ⟨rfl, hb⟩ := hb
      obtain ⟨x, hx, hrest⟩ := exists_blanks_append rest
      rw [hslash] at hrest
      have hnext := hlead.more hu ht hpre helement hx
      rw [← toList_append_consumed before lead u t rest] at hnext
      have hpre' : ∀ r ∈ pre ++ [s'], r.isAttribute = false := by
        intro r hr'
        rcases List.mem_append.1 hr' with hr' | hr'
        · exact hpre r hr'
        · rw [List.mem_singleton.1 hr']
          exact helement
      obtain ⟨⟨z, hz⟩, hspells⟩ := ih (by rw [hrest, List.append_assoc]; rfl) hpre' hnext hb
      refine ⟨⟨z, ?_⟩, ?_⟩
      · rw [← hz, toList_append_consumed]
        simp only [List.append_assoc]
      · rw [List.map_cons, List.cons_append, ← List.singleton_append, ← List.append_assoc]
        exact hspells

/-- **The beginnings of an accepted expression** are beginnings of its text, and each one that has
certain characters only is spelled with the steps up to its end. -/
theorem spells_beginning {e : String} {path : Path} (hp : Path.parse e = .ok path)
    {found missing : List (String × Step)} {c : String} {s : Step}
    (hb : path.beginnings = found ++ (c, s) :: missing) :
    (∃ z, e.toList = c.toList ++ z) ∧ (Within p content c.toList →
      (full.restrict p content).Spells (found.map Prod.snd ++ [s]) c.toList) := by
  have hstart : Introduces p content [] ("".toList ++ []) :=
    ⟨closed_nil, fun _ y hy => Leads.of_blanks hy⟩
  obtain ⟨hz, hspells⟩ := spells_beginning_of_readSegments hA (readSegments_of_parse hp).2.1
    (List.nil_append _).symm (fun s hs => absurd hs (by simp)) hstart hb
  exact ⟨hz, hspells.holds⟩

theorem spells_of_parse_of_within {e : String} {path : Path} (hp : Path.parse e = .ok path)
    (he : Within p content e.toList) :
    (full.restrict p content).Spells path.steps e.toList := by
  obtain ⟨steps, hs⟩ := exists_spells_of_parse hp
  have hspells := hs.restrict he
  obtain ⟨-, -, -, segs, -, -, -, -, hsteps, hparse⟩ := parse_of_spells hA hspells
  obtain rfl : path = ⟨e, segs⟩ := by rwa [hp, Except.ok.injEq] at hparse
  rw [Path.steps, hsteps]
  exact hspells

end

end XmlPaths

import XmlPaths.Proofs.Path.Acceptance

/-!
# The beginnings of a path

What ends with a step of a path is a path itself: it is read as the steps up to that one.

* `Alphabet.SpellsPath.snoc`   a path with one more step;
* `parse_beginning`           the beginnings of a path are accepted.
-/

namespace XmlPaths

theorem elements_concat {pre : List Step} (hpre : ∀ s ∈ pre, s.isAttribute = false)
    (s : ChildStep) : ∀ t ∈ pre ++ [.element s], t.isAttribute = false := by
  intro t ht
  rcases List.mem_append.1 ht with ht | ht
  · exact hpre t ht
  · rw [List.mem_singleton.1 ht]
    rfl

namespace Alphabet

variable {A : Alphabet}

theorem SpellsPath.snoc {steps : List Step} {t : List Char} (h : A.SpellsPath steps t)
    (hsteps : ∀ s ∈ steps, s.isAttribute = false) {s : Step} {r u w : List Char}
    (hs : A.SpellsStep s r) (hu : A.Blanks u) (hw : A.Blanks w) :
    A.SpellsPath (steps ++ [s]) (t ++ (u ++ '/' :: (w ++ r))) := by
  induction h with
  | @last s' t hs' =>
    obtain ⟨s', rfl⟩ := Step.exists_eq_element (hsteps _ List.mem_cons_self)
    exact .more hs' hu hw (.last hs)
  | @more s' rest t r' u' w' hs' hu' hw' _ ih =>
    have hrest := ih fun s hs => hsteps s (List.mem_cons_of_mem _ hs)
    have happ : t ++ (u' ++ '/' :: (w' ++ r')) ++ (u ++ '/' :: (w ++ r)) =
        t ++ (u' ++ '/' :: (w' ++ (r' ++ (u ++ '/' :: (w ++ r))))) := by
      simp only [List.append_assoc, List.cons_append]
    rw [happ]
    exact .more hs' hu' hw' hrest

section
variable {before : String} {lead u r : List Char} (hbefore : before.toList ++ lead = u ++ r)
include hbefore

theorem toList_source (t : List Char) :
    (before ++ String.ofList (lead ++ t)).toList = u ++ (r ++ t) := by
  rw [String.toList_append, String.toList_ofList, ← List.append_assoc, hbefore, List.append_assoc]

theorem spells_source (hu : A.Blanks u) {steps : List Step} {t : List Char}
    (h : A.SpellsPath steps (r ++ t)) :
    A.Spells steps (before ++ String.ofList (lead ++ t)).toList := by
  refine ⟨u, r ++ t, [], hu, h, blanks_nil, ?_⟩
  rw [toList_source hbefore, List.append_nil]

end

/-- The text up to a segment is a path.  Before the segments there are blanks `u` and a text `r`;
it is a path when a further step is put behind it. -/
theorem SpellsSegments.spells_beginning {segs : List Segment} {lead t : List Char}
    (h : A.SpellsSegments lead segs t) (pre : List Step) {before : String} {u : List Char}
    (r : List Char) (hu : A.Blanks u) (hbefore : before.toList ++ lead = u ++ r)
    (hpre : ∀ s ∈ pre, s.isAttribute = false)
    (hr : ∀ s t, A.SpellsStep s t → A.SpellsPath (pre ++ [s]) (r ++ t))
    {found missing : List (String × Step)} {c : String} {s : Step}
    (hb : beginningsFrom before segs = found ++ (c, s) :: missing) :
    A.Spells (pre ++ (found.map Prod.snd ++ [s])) c.toList ∧
      ∃ z, before.toList ++ (lead ++ t) = c.toList ++ z := by
  induction h generalizing pre before r found with
  | @last s' lead t hs' =>
    rw [beginningsFrom_cons, beginningsFrom_nil] at hb
    cases found with
    | nil =>
      rw [List.nil_append, List.cons.injEq, Prod.mk.injEq] at hb
      obtain ⟨⟨rfl, rfl⟩, -⟩ := hb
      refine ⟨spells_source hbefore hu (hr _ t hs'), [], ?_⟩
      rw [List.append_nil, String.toList_append, String.toList_ofList]
    | cons b found => exact absurd (List.cons.inj hb).2 (by simp)
  | @more s' segs lead t r' x y hs' hx hy _ ih =>
    rw [beginningsFrom_cons] at hb
    cases found with
    | nil =>
      rw [List.nil_append, List.cons.injEq, Prod.mk.injEq] at hb
      obtain ⟨⟨rfl, rfl⟩, -⟩ := hb
      refine ⟨spells_source hbefore hu (hr _ t hs'), x ++ '/' :: (y ++ r'), ?_⟩
      rw [String.toList_append, String.toList_ofList]
      simp only [List.append_assoc]
    | cons b found =>
      rw [List.cons_append, List.cons.injEq] at hb
      obtain ⟨rfl, hb⟩ := hb
      have hnext : ∀ s t', A.SpellsStep s t' →
          A.SpellsPath ((pre ++ [.element s']) ++ [s]) ((r ++ t ++ (x ++ '/' :: y)) ++ t') := by
        intro s t' hs
        have happ : (r ++ t ++ (x ++ '/' :: y)) ++ t' = r ++ t ++ (x ++ '/' :: (y ++ t')) := by
          simp only [List.append_assoc, List.cons_append]
        rw [happ]
        exact (hr _ t hs').snoc (elements_concat hpre s') hs hx hy
      have hbefore' : (before ++ String.ofList (lead ++ t)).toList ++ (x ++ '/' :: y) =
          u ++ (r ++ t ++ (x ++ '/' :: y)) := by
        rw [toList_source hbefore]
        simp only [List.append_assoc]
      obtain ⟨hspells, z, hz⟩ := ih _ _ hbefore' (elements_concat hpre s') hnext hb
      refine ⟨?_, z, ?_⟩
      · rw [List.map_cons, List.cons_append, ← List.singleton_append, ← List.append_assoc]
        exact hspells
      · rw [← hz, String.toList_append, String.toList_ofList]
        simp only [List.append_assoc, List.cons_append]

end Alphabet

open Alphabet

/-! ## beginnings are accepted -/

theorem unquoted_subset (q : Option Char) (s t : List Char) :
    unquoted q s ⊆ unquoted q (s ++ t) := by
  induction s generalizing q with
  | nil => exact List.nil_subset _
  | cons c s ih =>
    rw [List.cons_append]
    cases q with
    | some q => exact ih _
    | none =>
      rw [unquoted, unquoted]
      split
      · exact ih _
      · exact List.cons_subset_cons c (ih none)

theorem Alphabet.Within.of_append {p content : Char → Bool} {s t : List Char}
    (h : Within p content (s ++ t)) : Within p content s where
  outside := fun c hc => h.outside c (unquoted_subset none s t hc)
  everywhere := fun c hc => h.everywhere c (List.mem_append_left _ hc)

section
variable {A : Alphabet} (hA : A.Clear)
include hA

/-- **A beginning of a path is a path**, with the steps up to the one that it ends with. -/
theorem parse_beginning {e : String} {steps : List Step} (hs : A.Spells steps e.toList) {p : Path}
    (hp : Path.parse e = .ok p) {found missing : List (String × Step)} {c : String} {s : Step}
    (hb : p.beginnings = found ++ (c, s) :: missing) :
    (∃ z, e.toList = c.toList ++ z) ∧
      ∃ q, Path.parse c = .ok q ∧ q.steps = found.map Prod.snd ++ [s] := by
  obtain ⟨u, t, w, segs, hu, hsegs, -, he, -, hparse⟩ := parse_of_spells hA hs
  obtain rfl : p = ⟨e, segs⟩ := by rwa [hp, Except.ok.injEq] at hparse
  obtain ⟨hspells, z, hz⟩ := hsegs.spells_beginning [] [] hu
    (by rw [String.toList_empty, List.nil_append, List.append_nil])
    (fun _ h => absurd h (by simp)) (fun _ _ hstep => .last hstep) hb
  rw [String.toList_empty, List.nil_append] at hz
  refine ⟨⟨z ++ w, ?_⟩, ?_⟩
  · rw [he, ← List.append_assoc, hz, List.append_assoc]
  · obtain ⟨-, -, -, segs', -, -, -, -, hsteps, hparse'⟩ := parse_of_spells hA hspells
    exact ⟨_, hparse', hsteps⟩

end

end XmlPaths

import XmlPaths.Proofs.Path.Truncation

/-!
# What the steps of a path are made of

Nothing is made up in reading: the names and values of the steps that an expression is read as
consist of characters of the expression.

* `Step.DrawnFrom`            the names and values of a step consist of characters of a text;
* `drawnFrom_of_readStep?`    so they do when a step is read from the front of that text;
* `drawnFrom_of_parse`        the steps of an accepted expression.
-/

namespace XmlPaths

/-! ## names and values -/

structure Comparison.DrawnFrom (cs : List Char) (k : Comparison) : Prop where
  name : k.name.toList ⊆ cs
  value : ∀ v ∈ k.value, v.toList ⊆ cs

structure ChildStep.DrawnFrom (cs : List Char) (s : ChildStep) : Prop where
  nsPrefix : ∀ p ∈ s.nsPrefix, p.toList ⊆ cs
  localName : s.localName.toList ⊆ cs
  comparisons : ∀ k ∈ s.comparisons, k.DrawnFrom cs

/-- The names and values of the step consist of characters of a text. -/
def Step.DrawnFrom (cs : List Char) : Step → Prop
  | .element s => s.DrawnFrom cs
  | .attribute a => a.toList ⊆ cs

section
variable {cs cs' : List Char} (hcs : cs ⊆ cs')
include hcs

theorem Comparison.DrawnFrom.mono {k : Comparison} (h : k.DrawnFrom cs) : k.DrawnFrom cs' :=
  ⟨List.Subset.trans h.name hcs, fun v hv => List.Subset.trans (h.value v hv) hcs⟩

theorem Step.DrawnFrom.mono {s : Step} (h : s.DrawnFrom cs) : s.DrawnFrom cs' := by
  cases s with
  | element s =>
    exact ⟨fun p hp => List.Subset.trans (h.nsPrefix p hp) hcs, List.Subset.trans h.localName hcs,
      fun k hk => (h.comparisons k hk).mono hcs⟩
  | «attribute» a => exact List.Subset.trans h hcs

end

/-! ## lexemes -/

theorem subset_of_takeUntilQuote? {q : Char} {cs v r : List Char}
    (h : takeUntilQuote? q cs = some (v, r)) : v ⊆ cs ∧ r ⊆ cs := by
  rw [takeUntilQuote?] at h
  split at h
  · exact absurd h (by simp)
  · next c rest hdrop =>
    obtain ⟨rfl, rfl⟩ := Prod.mk.inj (Option.some.inj h)
    refine ⟨(List.takeWhile_sublist _).subset, fun d hd => ?_⟩
    refine (List.dropWhile_sublist (· != q)).subset ?_
    rw [hdrop]
    exact List.mem_cons_of_mem c hd

theorem subset_of_takeLiteral? {cs v r : List Char} (h : takeLiteral? cs = some (v, r)) :
    v ⊆ cs ∧ r ⊆ cs := by
  have hquoted : ∀ {q : Char} {cs' : List Char}, takeUntilQuote? q cs' = some (v, r) →
      v ⊆ q :: cs' ∧ r ⊆ q :: cs' := fun hq =>
    (subset_of_takeUntilQuote? hq).imp (List.subset_cons_of_subset _) (List.subset_cons_of_subset _)
  rw [takeLiteral?.eq_def] at h
  split at h
  · exact hquoted h
  · exact hquoted h
  · exact absurd h (by simp)

theorem skipBlanks_subset (cs : List Char) : skipBlanks cs ⊆ cs :=
  (List.dropWhile_sublist isBlank).subset

theorem subset_of_skipBlanks {c : Char} {cs rest : List Char} (h : skipBlanks cs = c :: rest) :
    rest ⊆ cs := by
  have hsub := skipBlanks_subset cs
  rw [h] at hsub
  exact List.Subset.trans (List.subset_cons_self c rest) hsub

theorem subset_of_takeDemand? {cs v r : List Char} (h : takeDemand? cs = some (v, r)) :
    v ⊆ cs ∧ r ⊆ cs := by
  rw [takeDemand?] at h
  split at h
  · next rest hskip =>
    have hrest := List.Subset.trans (skipBlanks_subset rest) (subset_of_skipBlanks hskip)
    obtain ⟨hv, hr⟩ := subset_of_takeLiteral? h
    exact ⟨List.Subset.trans hv hrest, List.Subset.trans hr hrest⟩
  · exact absurd h (by simp)

theorem drawnFrom_of_takeComparison? {cs r : List Char} {k : Comparison}
    (h : takeComparison? cs = some (k, r)) : k.DrawnFrom cs ∧ r ⊆ cs := by
  rw [takeComparison?.eq_def] at h
  split at h
  · next cs =>
    split at h
    · exact absurd h (by simp)
    · next n r' hn =>
      obtain ⟨-, rfl⟩ := isName_of_takeName? hn
      have hname : (String.ofList n).toList ⊆ '@' :: (n ++ r') := by
        rw [String.toList_ofList]
        exact List.subset_cons_of_subset _ (List.subset_append_left n r')
      have hrest : r' ⊆ '@' :: (n ++ r') :=
        List.subset_cons_of_subset _ (List.subset_append_right n r')
      split at h
      · next v r'' hv =>
        obtain ⟨hvalue, hrest'⟩ := subset_of_takeDemand? hv
        obtain ⟨rfl, rfl⟩ := Prod.mk.inj (Option.some.inj h)
        refine ⟨⟨hname, fun w hw => ?_⟩, List.Subset.trans hrest' hrest⟩
        rw [← Option.some.inj hw, String.toList_ofList]
        exact List.Subset.trans hvalue hrest
      · obtain ⟨rfl, rfl⟩ := Prod.mk.inj (Option.some.inj h)
        exact ⟨⟨hname, fun w hw => absurd hw (by simp)⟩, hrest⟩
  · exact absurd h (by simp)

theorem drawnFrom_of_mem_comparisonsIn {cs : List Char} {k : Comparison}
    (h : k ∈ comparisonsIn cs) : k.DrawnFrom cs := by
  fun_induction comparisonsIn cs with
  | case1 => exact absurd h (by simp)
  | case2 c cs k' r hk ih =>
    obtain ⟨hdrawn, hrest⟩ := drawnFrom_of_takeComparison? hk
    rcases List.mem_cons.1 h with rfl | h
    · exact hdrawn
    · exact (ih h).mono hrest
  | case3 c cs _ ih => exact (ih h).mono (List.subset_cons_self c cs)

theorem drawnFrom_of_mem_readClause {cs : List Char} {k : Comparison}
    (h : k ∈ (readClause cs).1) : k.DrawnFrom cs := by
  obtain ⟨u, ks, c, r, -, -, rfl, hread⟩ | ⟨hread, -⟩ := readClause_cases cs
  · rw [hread] at h
    refine (drawnFrom_of_mem_comparisonsIn h).mono ?_
    exact List.Subset.trans (List.subset_append_left c r) (List.subset_append_right u _)
  · rw [hread] at h
    exact absurd h (by simp)

/-! ## steps -/

theorem drawnFrom_of_readBareStep? {cs r : List Char} {s : Step}
    (h : readBareStep? cs = some (s, r)) : s.DrawnFrom cs := by
  obtain ⟨z, n, rfl, hn, rfl⟩ | ⟨p, l, z, hn, rfl, rfl⟩ := readBareStep?_cases h
  · obtain ⟨-, rfl⟩ := isName_of_takeName? hn
    rw [Step.DrawnFrom, String.toList_ofList]
    exact List.subset_cons_of_subset _ (List.subset_append_left n _)
  · obtain ⟨q, hq, rfl⟩ := exists_spellsName_of_readName? hn
    have hks : ∀ k ∈ (readClause z).1, k.DrawnFrom (q ++ z) := fun k hk =>
      (drawnFrom_of_mem_readClause hk).mono (List.subset_append_right q z)
    cases hq with
    | bare _ => exact ⟨by simp, by simp, hks⟩
    | @qualified p n _ _ =>
      have hname := List.subset_append_left (p ++ ':' :: n) z
      refine ⟨by simp, ?_, hks⟩
      rw [String.toList_ofList]
      have hlocal := List.Subset.trans (List.subset_cons_self ':' n) (List.subset_append_right p _)
      exact List.Subset.trans hlocal hname

theorem drawnFrom_of_readStep? {cs r : List Char} {s : Step} (h : readStep? cs = some (s, r)) :
    s.DrawnFrom cs := by
  obtain ⟨u, c, t, -, rfl, hbare, -⟩ := exists_readBareStep?_of_readStep? h
  exact (drawnFrom_of_readBareStep? hbare).mono (List.subset_append_right u _)

theorem rest_subset_of_readStep? {cs r : List Char} {s : Step} (h : readStep? cs = some (s, r)) :
    r ⊆ cs := by
  obtain ⟨u, s', t, -, -, rfl, -⟩ := exists_spellsStep_of_readStep? h
  exact List.Subset.trans (List.subset_append_right t r) (List.subset_append_right u _)

theorem drawnFrom_of_readSegments {source cs : List Char} {segs : List Segment}
    (h : readSegments source cs = .ok segs) : ∀ s ∈ segs.map Segment.step, s.DrawnFrom cs := by
  rw [readSegments_ok_iff] at h
  induction h with
  | last hs _ =>
    intro t ht
    rw [List.mem_singleton.1 ht]
    exact drawnFrom_of_readStep? hs
  | more hs hslash _ _ ih =>
    intro t ht
    rcases List.mem_cons.1 ht with rfl | ht
    · exact drawnFrom_of_readStep? hs
    · refine (ih t ht).mono ?_
      exact List.Subset.trans (subset_of_skipBlanks hslash) (rest_subset_of_readStep? hs)

/-- **The steps of an accepted expression** are made of its characters. -/
theorem drawnFrom_of_parse {e : String} {p : Path} (hp : Path.parse e = .ok p) :
    ∀ s ∈ p.steps, s.DrawnFrom e.toList :=
  drawnFrom_of_readSegments (readSegments_of_parse hp).2.1

end XmlPaths

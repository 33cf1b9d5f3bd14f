import XmlPaths.Proofs.Build.Growth

/-!
# Demands that can be met

A step makes demands on the attributes of its element.  Some attributes meet all of them if and only
if no two of them contradict each other, and then those of a new element do.  Otherwise the new
element is made nevertheless, with a conflict for each demand that overrides another one.

* `consistent_of_isMet`        what is met by some attributes is not contradictory;
* `isMet_derivedEntries`       what is not contradictory is met by the attributes of a new element;
* `meets_newNode`              the new element has what its attributes meet;
* `mem_conflicts_iff`          which conflicts are met when a step is followed;
* `derivedEntries_isMet_iff_consistent`   all of it together.
-/

namespace XmlPaths

/-! ## attributes that meet comparisons -/

/-- An attribute has to be there, with the value if one is demanded. -/
theorem Comparison.isMet_iff {es : Entries} {k : Comparison} :
    k.isMet es = true ↔ ∃ w, es.value? k.name = some w ∧ ∀ v ∈ k.value, v = w := by
  rw [isMet]
  cases hv : k.value with
  | none => simp [Option.isSome_iff_exists]
  | some v => simp

theorem consistent_of_isMet {ks : List Comparison} {es : Entries}
    (h : ∀ k ∈ ks, k.isMet es = true) : Consistent ks := by
  refine consistent_of_values es.value? fun k hk v hv => ?_
  obtain ⟨w, hw, hvalue⟩ := Comparison.isMet_iff.1 (h k hk)
  rw [hw, hvalue v hv]

namespace ChildStep

variable {s : ChildStep} {k : Comparison}

theorem isMet_derivedEntries (h : Consistent s.comparisons) (hk : k ∈ s.comparisons) :
    k.isMet s.derivedEntries = true := by
  refine Comparison.isMet_iff.2 ⟨(lastDemanded s.comparisons k.name).getD "", ?_, fun v hv => ?_⟩
  · rw [derivedEntries_eq, value?_asked, if_pos (mem_mentioned.2 ⟨k, hk, rfl⟩)]
  · rw [lastDemanded_of_consistent h, demanded_of_mem h hk hv, Option.getD_some]

/-- A new element has what its attributes meet. -/
theorem meets_newNode (s : ChildStep) (ns : Namespaces) (i : NodeId) (k : Comparison) :
    (s.newNode ns i).meets k = k.isMet s.derivedEntries := by
  rw [newNode, Node.meets, Node.element?, Option.any_some, Element.meets, derived,
    attribute?_entries]
  rfl

/-! ## the conflicts of a step -/

/-- A conflict is met at each comparison that overrides the last demand in front of it. -/
theorem mem_conflicts_iff (s : ChildStep) (c : Conflict) :
    c ∈ s.conflicts ↔ c.step = s ∧ ∃ before k after, s.comparisons = before ++ k :: after ∧
      k.name = c.name ∧ Overrides before k c.value := by
  rw [conflicts, ← (recorded_ofComparisons _).conflicts, List.mem_map]
  constructor
  · rintro ⟨⟨a, v⟩, h, rfl⟩
    exact ⟨rfl, h⟩
  · rintro ⟨rfl, h⟩
    exact ⟨(c.name, c.value), h, rfl⟩

theorem conflicts_ne_nil_iff (s : ChildStep) : s.conflicts ≠ [] ↔ ¬ Consistent s.comparisons := by
  rw [conflicts, ne_eq, List.map_eq_nil_iff, conflicts_eq_nil_iff]

end ChildStep

/-- **A new element meets its step exactly if that is possible.**  Its attributes are those that the
comparisons mention, each once and in the order of the first mention, with the value that is
demanded last or an empty one.  They meet all comparisons if and only if no two comparisons demand
different values of one attribute.  Conflicts are reported if and only if two do, for the values that
differ from the last one before them, and then there are no attributes at all that meet all
comparisons.  Where an element is made for the step, it meets them under the same condition, and
these are the conflicts that are reported for it. -/
theorem derivedEntries_isMet_iff_consistent (s : ChildStep) :
    s.derivedEntries = (mentioned s.comparisons).map (fun a =>
      (a, (lastDemanded s.comparisons a).getD "")) ∧
    ((∀ k ∈ s.comparisons, k.isMet s.derivedEntries = true) ↔ Consistent s.comparisons) ∧
    (s.conflicts ≠ [] ↔ ¬ Consistent s.comparisons) ∧
    (∀ c, c ∈ s.conflicts ↔ c.step = s ∧ ∃ before k after, s.comparisons = before ++ k :: after ∧
      k.name = c.name ∧ Overrides before k c.value) ∧
    ((∃ es : Entries, ∀ k ∈ s.comparisons, k.isMet es = true) ↔ Consistent s.comparisons) ∧
    ∀ f x ns names,
      (∃ cs failure, addStep f (.node x) (.element s) ns names = ⟨f, cs, .error failure⟩) ∨
      ∃ n p, addStep f (.node x) (.element s) ns names =
          ⟨f.put n p, s.conflicts, .ok (.node n.id)⟩ ∧
        ((∀ k ∈ s.comparisons, n.meets k = true) ↔ Consistent s.comparisons) := by
  have hmet : (∀ k ∈ s.comparisons, k.isMet s.derivedEntries = true) ↔ Consistent s.comparisons :=
    ⟨consistent_of_isMet, fun h k hk => ChildStep.isMet_derivedEntries h hk⟩
  have hpossible : (∃ es : Entries, ∀ k ∈ s.comparisons, k.isMet es = true) ↔
      Consistent s.comparisons :=
    ⟨fun ⟨_, h⟩ => consistent_of_isMet h, fun h => ⟨s.derivedEntries, hmet.2 h⟩⟩
  refine ⟨s.derivedEntries_eq, hmet, s.conflicts_ne_nil_iff, s.mem_conflicts_iff,
    hpossible, fun f x ns names => ?_⟩
  rcases addStep_element f x s ns names with ⟨cs, failure, hstep, -⟩ | ⟨p, -, -, -, hstep⟩
  · exact .inl ⟨cs, failure, hstep⟩
  · refine .inr ⟨s.newNode ns f.next, p, hstep, ?_⟩
    simp only [ChildStep.meets_newNode]
    exact hmet

/-- Existence tests in front of and between two values of `x` don't hide that these differ. -/
example : Derivation.ofComparisons
    [⟨"x", none⟩, ⟨"y", none⟩, ⟨"x", some "1"⟩, ⟨"x", none⟩, ⟨"x", some "2"⟩, ⟨"x", some "2"⟩] =
      ⟨[("x", "2"), ("y", "")], [("x", "2")], [("x", "2")]⟩ := by
  decide

end XmlPaths

import XmlPaths.Build.Placement
import XmlPaths.Proofs.Tree.Nodes

/-!
# Where children are put

* `XPath.Inside`             nodes of the evaluation that are nodes of the forest;
* `mem_ids_of_selectFrom`    what is selected is in the forest;
* `mem_ids_of_placeByPriority`   so is the node that a place is next to.
-/

namespace XmlPaths

namespace XPath

/-- If a node of the tree is meant, it is one of the forest. -/
def Inside (f : Forest) (r : Ref) : Prop := ∀ x, r = .node x → x ∈ f.ids

theorem inside_of_mem_refs {f : Forest} {r : Ref} (h : r ∈ f.refs) : Inside f r := by
  rintro x rfl
  have htarget : Ref.node x ∈ f.refs.filter Ref.isTarget := List.mem_filter.2 ⟨h, rfl⟩
  rw [Forest.targets_of_refs, List.mem_flatMap] at htarget
  obtain ⟨n, hn, hx⟩ := htarget
  rw [Node.ownRefs, List.mem_cons] at hx
  rcases hx with hx | hx
  · rw [Ref.node.inj hx]
    exact List.mem_map_of_mem hn
  · rw [Node.attributeRefs] at hx
    split at hx
    · obtain ⟨a, -, ha⟩ := List.mem_map.1 hx
      exact absurd ha (by simp)
    · exact absurd hx (by simp)

theorem inside_of_mem_inOrder {f : Forest} {rs : List Ref} {r : Ref} (h : r ∈ f.inOrder rs) :
    Inside f r :=
  inside_of_mem_refs (Forest.mem_inOrder.1 h).1

theorem select_subset {test : Ref → Nat → Except EvalError Bool} {rs kept : List Ref} {i : Nat}
    (h : select test i rs = .ok kept) : kept ⊆ rs := by
  induction rs generalizing i kept with
  | nil =>
    rw [← Except.ok.inj h]
    exact List.nil_subset _
  | cons r rs ih =>
    rw [select] at h
    split at h
    · exact absurd h (by simp)
    · split at h
      · exact absurd h (by simp)
      · next kept' hkept =>
        have hsub := ih hkept
        rw [← Except.ok.inj h]
        split
        · exact List.cons_subset_cons r hsub
        · exact List.subset_cons_of_subset r hsub

/-- No function has nodes for its value, but for one that finds none. -/
theorem nil_of_apply {f : Forest} {focus : Focus} {name : String} {args : List Value}
    {rs : List Ref} (h : apply f focus name args = .ok (.nodes rs)) : rs = [] := by
  unfold apply at h
  dsimp only at h
  split at h
  all_goals try split at h
  all_goals simp only [Except.ok.injEq, Value.nodes.injEq, reduceCtorEq] at h
  exact h.symm

theorem exists_inOrder_of_combine {f : Forest} {op : BinaryOp} {a b : Value} {rs : List Ref}
    (h : combine f op a b = .ok (.nodes rs)) : ∃ ss, rs = f.inOrder ss := by
  unfold combine at h
  split at h
  · split at h
    · exact ⟨_, (Value.nodes.inj (Except.ok.inj h)).symm⟩
    · exact absurd h (by simp)
  all_goals exact absurd h (by simp)

/-- What an expression evaluates to is in the forest. -/
theorem inside_of_eval {s : Scope} {focus : Focus} (hfocus : Inside s.forest focus.node) {e : Expr}
    {rs : List Ref} (h : eval s focus e = .ok (.nodes rs)) : ∀ r ∈ rs, Inside s.forest r := by
  have hdocument : ∀ d, Inside s.forest (.document d) := fun d x hx => absurd hx (by simp)
  cases e with
  | context =>
    rw [eval, Except.ok.injEq, Value.nodes.injEq] at h
    intro r hr
    rw [← h, List.mem_singleton] at hr
    rw [hr]
    exact hfocus
  | root =>
    rw [eval] at h
    intro r hr
    split at h
    · rw [← Value.nodes.inj (Except.ok.inj h), List.mem_singleton] at hr
      rw [hr]
      exact hdocument _
    · split at h
      · rw [← Value.nodes.inj (Except.ok.inj h), List.mem_singleton] at hr
        rw [hr]
        exact hdocument _
      · rw [← Value.nodes.inj (Except.ok.inj h)] at hr
        exact absurd hr (by simp)
    · rw [← Value.nodes.inj (Except.ok.inj h)] at hr
      exact absurd hr (by simp)
  | step source a t ps =>
    rw [eval] at h
    split at h
    · exact absurd h (by simp)
    · split at h
      · exact absurd h (by simp)
      · split at h
        · exact absurd h (by simp)
        · rw [← Value.nodes.inj (Except.ok.inj h)]
          exact fun r => inside_of_mem_inOrder
    · exact absurd h (by simp)
  | filter base p =>
    rw [eval] at h
    split at h
    · exact absurd h (by simp)
    · next rs' hbase =>
      split at h
      · exact absurd h (by simp)
      · next kept hkept =>
        rw [← Value.nodes.inj (Except.ok.inj h)]
        exact fun r hr => inside_of_eval hfocus hbase r (select_subset hkept hr)
    · exact absurd h (by simp)
  | literal t | number n | «variable» x =>
    rw [eval] at h
    exact absurd h (by simp)
  | call p name args =>
    rw [eval] at h
    split at h
    · exact absurd h (by simp)
    · cases p with
      | some p => exact absurd h (by simp)
      | none =>
        rw [nil_of_apply h]
        exact fun r hr => absurd hr (by simp)
  | binary op a b =>
    rw [eval] at h
    split at h
    · exact absurd h (by simp)
    · split at h
      · exact absurd h (by simp)
      · split at h
        · exact absurd h (by simp)
        · obtain ⟨ss, rfl⟩ := exists_inOrder_of_combine h
          exact fun r => inside_of_mem_inOrder
  | negate a =>
    rw [eval] at h
    split at h <;> exact absurd h (by simp)

end XPath

/-! ## places -/

/-- **What is selected from a node of the forest is in the forest.** -/
theorem mem_ids_of_selectFrom {f : Forest} {x : NodeId} (hx : x ∈ f.ids) {e : String}
    {ns : Namespaces} {sel : List Selected} (h : selectFrom f x e ns = .ok sel) {y : NodeId}
    (hy : .node y ∈ sel) : y ∈ f.ids := by
  rw [selectFrom] at h
  obtain ⟨rs, hrs, rfl⟩ : ∃ rs, evaluateNodes f x e ns = .ok rs ∧
      rs.filterMap (Selected.ofRef f) = sel := by
    cases heval : evaluateNodes f x e ns with
    | error failure => rw [heval] at h; exact absurd h (by simp [Except.map])
    | ok rs => rw [heval] at h; exact ⟨rs, rfl, Except.ok.inj h⟩
  rw [evaluateNodes] at hrs
  split at hrs
  · exact absurd hrs (by simp)
  · split at hrs
    · exact absurd hrs (by simp)
    · split at hrs
      · exact absurd hrs (by simp)
      · split at hrs
        · exact absurd hrs (by simp)
        · next rs' heval =>
          obtain rfl := Except.ok.inj hrs
          obtain ⟨r, hr, hry⟩ := List.mem_filterMap.1 hy
          have hfocus : XPath.Inside (XPath.Scope.mk f ns).forest
              (XPath.Focus.mk (.node x) 1 1).node := fun z hz => Ref.node.inj hz ▸ hx
          have hin := XPath.inside_of_eval hfocus heval r hr
          cases r with
          | node z =>
            obtain rfl := Selected.node.inj (Option.some.inj hry)
            exact hin z rfl
          | document | text | tail | «attribute» => exact absurd hry (by simp [Selected.ofRef])
        · exact absurd hrs (by simp)

/-- The node that a place is next to is in the forest. -/
theorem mem_ids_of_placeByPriority {f : Forest} {parent : NodeId} (hparent : parent ∈ f.ids)
    {ns : Namespaces} {names : List String} {p : Forest.Place}
    (h : placeByPriority f parent ns names = .ok p) :
    p = .first parent ∨ ∃ s, p = .after s ∧ s ∈ f.ids := by
  induction names with
  | nil =>
    rw [placeByPriority] at h
    exact .inl (Except.ok.inj h).symm
  | cons name rest ih =>
    rw [placeByPriority] at h
    split at h
    · exact absurd h (by simp)
    · exact ih h
    · next y ys hsel =>
      exact .inr ⟨y, (Except.ok.inj h).symm, mem_ids_of_selectFrom hparent hsel List.mem_cons_self⟩
    · exact absurd h (by simp)

end XmlPaths

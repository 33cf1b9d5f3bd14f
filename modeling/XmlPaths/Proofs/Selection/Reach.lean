import XmlPaths.Proofs.Selection.Walk
import XmlPaths.Proofs.Tree.Update

/-!
# What is reached, and what a change of it changes

The elements that element steps lead to lie side by side.  If one of them is changed, and is still
what the last step asks for, the steps lead to the same elements as before; further steps lead
elsewhere from the changed one only.

* `Node.reach`             the elements that element steps lead to;
* `Node.walk_append`       further steps go on from them;
* `Node.walk_update`       what steps lead to after a change of one of them.
-/

namespace XmlPaths.Node

variable (ns : Namespaces)

/-- the elements that steps lead to; none if there is a step to an attribute -/
def reach : List Step → Node → List Node
  | [], n => [n]
  | .element s :: rest, n => (n.childrenAt ns s).flatMap (reach rest)
  | .attribute _ :: _, _ => []

theorem walk_append {pre : List Step} (hpre : ∀ s ∈ pre, s.isAttribute = false) (post : List Step)
    (n : Node) : n.walk ns (pre ++ post) = (n.reach ns pre).flatMap (walk ns post) := by
  induction pre generalizing n with
  | nil => rw [List.nil_append, reach, List.flatMap_singleton]
  | cons s pre ih =>
    cases s with
    | element s =>
      rw [List.cons_append, walk, reach, List.flatMap_assoc]
      exact List.flatMap_congr fun c _ => ih (fun t ht => hpre t (List.mem_cons_of_mem _ ht)) c
    | «attribute» a => exact absurd (hpre _ List.mem_cons_self) (by simp [Step.isAttribute])

theorem walk_eq_reach {pre : List Step} (hpre : ∀ s ∈ pre, s.isAttribute = false) (n : Node) :
    n.walk ns pre = (n.reach ns pre).map (.node ·.id) := by
  have h := walk_append ns hpre [] n
  rw [List.append_nil] at h
  rw [h, List.map_eq_flatMap]
  rfl

theorem reach_append (pre : List Step) (s : ChildStep) (n : Node) :
    n.reach ns (pre ++ [.element s]) = (n.reach ns pre).flatMap (·.childrenAt ns s) := by
  induction pre generalizing n with
  | nil =>
    rw [List.nil_append, reach, reach, List.flatMap_singleton]
    exact List.flatMap_singleton' _
  | cons t pre ih =>
    cases t with
    | element t =>
      rw [List.cons_append, reach, reach, List.flatMap_assoc]
      exact List.flatMap_congr fun c _ => ih c
    | «attribute» a => rfl

theorem reach_sublist (pre : List Step) (n : Node) :
    ((n.reach ns pre).flatMap nodes).Sublist n.nodes := by
  induction pre generalizing n with
  | nil =>
    rw [reach, List.flatMap_singleton]
  | cons s pre ih =>
    cases s with
    | element s =>
      rw [reach, List.flatMap_assoc]
      have hchildren : ((n.childrenAt ns s).flatMap fun c => (c.reach ns pre).flatMap nodes).Sublist
          (n.children.flatMap nodes) :=
        ((List.filter_sublist).flatMap _).trans (List.Sublist.flatMap_right _ fun c _ => ih c)
      exact hchildren.trans (children_sublist_nodes n)
    | «attribute» a => exact List.nil_sublist _

theorem mem_nodes_of_mem_reach {pre : List Step} {m n : Node} (h : m ∈ n.reach ns pre) :
    m ∈ n.nodes :=
  (reach_sublist ns pre n).subset (List.mem_flatMap.2 ⟨m, h, self_mem_nodes m⟩)

/-- There is nothing behind steps that lead nowhere. -/
theorem walk_cons_of_nil {s : Step} {n : Node} (h : n.walk ns [s] = []) (rest : List Step) :
    n.walk ns (s :: rest) = [] := by
  cases s with
  | element s =>
    have hmap : (n.childrenAt ns s).map (.node ·.id) = ([] : List Selected) := by
      rw [List.map_eq_flatMap]
      exact h
    rw [walk, List.map_eq_nil_iff.1 hmap]
    rfl
  | «attribute» a => exact h

theorem walk_append_of_nil {pre : List Step} (hpre : ∀ s ∈ pre, s.isAttribute = false) {s : Step}
    {n : Node} (h : n.walk ns (pre ++ [s]) = []) (rest : List Step) :
    n.walk ns (pre ++ s :: rest) = [] := by
  rw [walk_append ns hpre, List.flatMap_eq_nil_iff] at h ⊢
  intro m hm
  exact walk_cons_of_nil ns (h m hm) rest

/-! ## changes -/

section
variable {x : NodeId} {g : Node → Node}

omit ns in
theorem element?_update {n : Node} (h : n.id ≠ x) : (n.update x g).element? = n.element? := by
  cases n with
  | element j e cs t =>
    rw [update_element (show j ≠ x from h)]
    rfl
  | leaf j l t => rw [update_leaf (show j ≠ x from h)]

theorem fits_update {n : Node} {s : ChildStep} (hg : n.id = x → (g n).fits ns s = true)
    (h : n.fits ns s = true) : (n.update x g).fits ns s = true := by
  by_cases hn : n.id = x
  · rw [update_self hn]
    exact hg hn
  · have hmeets : (n.update x g).meets = n.meets := by
      funext k
      rw [meets, meets, element?_update hn]
    rw [fits, isNamed, element?_update hn, hmeets]
    exact h

/-- **A reached element that is changed is still reached** if it is still what the steps ask for,
and all others are reached as they were. -/
theorem reach_update {pre : List Step} {m n : Node} (hn : n.ids.Nodup)
    (hm : m ∈ n.reach ns pre) (hx : m.id = x)
    (hg : ∀ s, m.fits ns s = true → (g m).fits ns s = true) :
    ∃ before after, n.reach ns pre = before ++ m :: after ∧
      (n.update x g).reach ns pre = before ++ g m :: after := by
  induction pre generalizing n with
  | nil =>
    rw [reach, List.mem_singleton] at hm
    refine ⟨[], [], ?_, ?_⟩
    · rw [reach, hm]
      rfl
    · rw [reach, ← hm, update_self hx]
      rfl
  | cons s pre ih =>
    cases s with
    | «attribute» a => exact absurd hm (by simp [reach])
    | element s =>
      rw [reach, List.mem_flatMap] at hm
      obtain ⟨c, hc, hm⟩ := hm
      cases n with
      | leaf j l t => exact absurd hc (by simp [childrenAt, children])
      | element j e cs t =>
        obtain ⟨hcs, hfits⟩ := List.mem_filter.1 hc
        have hxc : x ∈ c.ids := by
          rw [← hx]
          exact List.mem_map_of_mem (mem_nodes_of_mem_reach ns hm)
        have hxcs : x ∈ cs.flatMap ids := List.mem_flatMap.2 ⟨c, hcs, hxc⟩
        rw [ids_element, List.nodup_cons] at hn
        have hj : j ≠ x := fun hj => hn.1 (by rwa [hj])
        obtain ⟨before, c', after, hsplit, -, honly, hmap⟩ := exists_split (g := g) hn.2 hxcs
        obtain rfl : c = c' := honly c hcs hxc
        obtain ⟨b, a, hreach, hreach'⟩ := ih (nodup_ids_of_mem hn.2 hcs) hm
        have hfits' : (c.update x g).fits ns s = true := by
          refine fits_update ns (fun hcx => ?_) hfits
          have hcm : c = m :=
            List.inj_on_of_nodup_map (nodup_ids_of_mem hn.2 hcs) (self_mem_nodes c)
              (mem_nodes_of_mem_reach ns hm) (hcx.trans hx.symm)
          rw [hcm] at hfits ⊢
          exact hg s hfits
        refine ⟨(before.filter (fits ns s)).flatMap (reach ns pre) ++ b,
          a ++ (after.filter (fits ns s)).flatMap (reach ns pre), ?_, ?_⟩
        · rw [reach, childrenAt, children, hsplit, List.filter_append,
            List.filter_cons_of_pos hfits, List.flatMap_append, List.flatMap_cons, hreach]
          simp only [List.append_assoc, List.cons_append]
        · rw [update_element hj, reach, childrenAt, children, hmap, List.filter_append,
            List.filter_cons_of_pos hfits', List.flatMap_append, List.flatMap_cons, hreach']
          simp only [List.append_assoc, List.cons_append]

/-- Where no step led on before, steps lead on from the changed element only. -/
theorem walk_update {pre : List Step} (hpre : ∀ s ∈ pre, s.isAttribute = false) {s : Step}
    {m n : Node} (hn : n.ids.Nodup) (hm : m ∈ n.reach ns pre) (hx : m.id = x)
    (hg : ∀ s, m.fits ns s = true → (g m).fits ns s = true)
    (hnone : n.walk ns (pre ++ [s]) = []) (rest : List Step) :
    (n.update x g).walk ns (pre ++ s :: rest) = (g m).walk ns (s :: rest) := by
  obtain ⟨before, after, hreach, hreach'⟩ := reach_update ns hn hm hx hg
  have hdead := walk_append_of_nil ns hpre hnone rest
  rw [walk_append ns hpre, hreach, List.flatMap_append, List.append_eq_nil_iff, List.flatMap_cons,
    List.append_eq_nil_iff] at hdead
  rw [walk_append ns hpre, hreach', List.flatMap_append, List.flatMap_cons, hdead.1, hdead.2.2,
    List.nil_append, List.append_nil]

end

end XmlPaths.Node

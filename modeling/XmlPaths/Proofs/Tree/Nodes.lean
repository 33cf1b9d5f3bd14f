import Mathlib.Data.List.Flatten
import Mathlib.Data.List.Nodup
import XmlPaths.XPath.Axis

/-!
# The nodes of sound forests

In a sound forest no identity is borne twice and no element has two attributes of one name.  A node
is then found by its identity, and the nodes and attributes of the forest are all different.

* `Node.recursion`             induction on nodes, with a hypothesis on each child;
* `Forest.Sound`               sound forests;
* `Forest.node?_of_mem`        nodes are found by their identities;
* `Forest.inOrder_of_sublist`  what is in document order already.
-/

namespace XmlPaths

namespace Node

/-- Induction on a node: what holds of all children holds of their parent. -/
@[elab_as_elim]
theorem recursion {motive : Node → Prop}
    (element : ∀ i e cs t, (∀ c ∈ cs, motive c) → motive (.element i e cs t))
    (leaf : ∀ i l t, motive (.leaf i l t)) (n : Node) : motive n := by
  match n with
  | .leaf i l t => exact leaf i l t
  | .element i e cs t =>
    refine element i e cs t fun c hc => ?_
    have hlt : sizeOf c < sizeOf cs := List.sizeOf_lt_of_mem hc
    exact recursion element leaf c
termination_by sizeOf n
decreasing_by
  simp only [Node.element.sizeOf_spec]
  omega

theorem nodes_eq (n : Node) : n.nodes = n :: n.children.flatMap nodes := by
  cases n with
  | element i e cs t => rw [nodes_element, children]
  | leaf i l t => rw [nodes_leaf, children, List.flatMap_nil]

theorem children_sublist_nodes (n : Node) :
    (n.children.flatMap nodes).Sublist n.nodes := by
  rw [nodes_eq]
  exact List.sublist_cons_self _ _

theorem nodes_sublist_of_mem {m n : Node} (h : m ∈ n.nodes) : m.nodes.Sublist n.nodes := by
  induction n using recursion with
  | leaf i l t =>
    rw [nodes_leaf, List.mem_singleton] at h
    rw [h]
  | element i e cs t ih =>
    rw [nodes_element, List.mem_cons, List.mem_flatMap] at h
    rcases h with rfl | ⟨c, hc, hm⟩
    · exact List.Sublist.refl _
    · have hsub : c.nodes.Sublist (cs.flatMap nodes) := by
        obtain ⟨before, after, rfl⟩ := List.append_of_mem hc
        rw [List.flatMap_append, List.flatMap_cons]
        exact (List.sublist_append_left _ _).trans (List.sublist_append_right _ _)
      rw [nodes_element]
      exact ((ih c hc hm).trans hsub).cons _

theorem mem_nodes_of_mem_children {c n : Node} (h : c ∈ n.children) : c ∈ n.nodes := by
  rw [nodes_eq]
  exact List.mem_cons_of_mem _ (List.mem_flatMap.2 ⟨c, h, self_mem_nodes c⟩)

/-- the node and its attributes, as expressions see them -/
def ownRefs (n : Node) : List Ref := .node n.id :: n.attributeRefs

end Node

/-- a node or an attribute, which paths can lead to -/
def Ref.isTarget : Ref → Bool
  | .node _ => true
  | .attribute _ _ => true
  | _ => false

namespace Node

theorem targets_of_textRefs (n : Node) : n.textRefs.filter Ref.isTarget = [] := by
  rw [textRefs]
  split <;> rfl

theorem targets_of_tailRefs (n : Node) : n.tailRefs.filter Ref.isTarget = [] := by
  rw [tailRefs]
  split <;> rfl

theorem targets_of_attributeRefs (n : Node) :
    n.attributeRefs.filter Ref.isTarget = n.attributeRefs := by
  rw [List.filter_eq_self]
  intro r hr
  rw [attributeRefs] at hr
  split at hr
  · obtain ⟨a, -, rfl⟩ := List.mem_map.1 hr
    rfl
  · exact absurd hr (by simp)

/-- The targets of paths in a tree are those of each of its nodes. -/
theorem targets_of_refs (n : Node) : n.refs.filter Ref.isTarget = n.nodes.flatMap ownRefs := by
  induction n using recursion with
  | leaf i l t =>
    rw [refs, nodes_leaf]
    rfl
  | element i e cs t ih =>
    have hall : (cs.flatMap fun n => n.refs ++ n.tailRefs).filter Ref.isTarget =
        (cs.flatMap nodes).flatMap ownRefs := by
      rw [List.filter_flatMap, List.flatMap_assoc]
      refine List.flatMap_congr fun c hc => ?_
      rw [List.filter_append, ih c hc, targets_of_tailRefs, List.append_nil]
    have hself : (Ref.node i).isTarget = true := rfl
    rw [refs, nodes_element, List.flatMap_cons, refsOfAll_eq_flatMap, List.filter_append, hall,
      List.filter_append, targets_of_textRefs, List.append_nil, List.filter_cons_of_pos hself,
      targets_of_attributeRefs]
    rfl

end Node

namespace Forest

/-- no identity is borne twice, and no element has two attributes of one name -/
structure Sound (f : Forest) : Prop extends f.WellFormed where
  attributes : ∀ n ∈ f.nodes, ∀ e ∈ n.element?, (e.attributes.map Attribute.name).Nodup

variable {f : Forest}

theorem mem_of_node? {x : NodeId} {n : Node} (h : f.node? x = some n) :
    n ∈ f.nodes ∧ n.id = x := by
  refine ⟨List.mem_of_find?_eq_some h, ?_⟩
  have hid := List.find?_some h
  simpa using hid

theorem WellFormed.eq_of_id (hf : f.WellFormed) {m n : Node} (hm : m ∈ f.nodes)
    (hn : n ∈ f.nodes) (h : m.id = n.id) : m = n :=
  List.inj_on_of_nodup_map hf.nodup hm hn h

theorem WellFormed.node?_of_mem (hf : f.WellFormed) {n : Node} (hn : n ∈ f.nodes) :
    f.node? n.id = some n := by
  cases h : f.node? n.id with
  | none =>
    have hne := List.find?_eq_none.1 h n hn
    exact absurd (beq_self_eq_true n.id) hne
  | some m =>
    obtain ⟨hm, hid⟩ := mem_of_node? h
    rw [hf.eq_of_id hm hn hid]

theorem nodes_sublist_of_mem {n : Node} (hn : n ∈ f.nodes) : n.nodes.Sublist f.nodes := by
  obtain ⟨t, ht, hnt⟩ := List.mem_flatMap.1 hn
  obtain ⟨before, after, heq⟩ := List.append_of_mem ht
  rw [nodes, heq, List.flatMap_append, List.flatMap_cons]
  exact ((Node.nodes_sublist_of_mem hnt).trans (List.sublist_append_left _ _)).trans
    (List.sublist_append_right _ _)

theorem WellFormed.nodup_ids (hf : f.WellFormed) {x : NodeId} {n : Node}
    (hn : f.node? x = some n) : n.ids.Nodup :=
  ((nodes_sublist_of_mem (mem_of_node? hn).1).map Node.id).nodup hf.nodup

theorem mem_nodes_of_mem_children {c n : Node} (hn : n ∈ f.nodes) (hc : c ∈ n.children) :
    c ∈ f.nodes :=
  (nodes_sublist_of_mem hn).subset (Node.mem_nodes_of_mem_children hc)

theorem targets_of_refs (f : Forest) :
    f.refs.filter Ref.isTarget = f.nodes.flatMap Node.ownRefs := by
  rw [refs, nodes, List.filter_flatMap, List.flatMap_assoc]
  refine List.flatMap_congr fun t _ => ?_
  have hdocument : (if t.attached then [Ref.document t.document] else []).filter Ref.isTarget =
      [] := by
    split <;> rfl
  rw [List.filter_append, List.filter_append, hdocument, List.nil_append, Node.targets_of_refs,
    Node.targets_of_tailRefs, List.append_nil]

/-- a part of a list without duplicates, picked out of it again -/
theorem filter_contains_of_sublist {α : Type} [DecidableEq α] {l' l : List α}
    (h : l'.Sublist l) (hl : l.Nodup) : (l.filter fun a => l'.contains a) = l' := by
  induction h with
  | slnil => rfl
  | @cons l' l a hsub ih =>
    obtain ⟨ha, hl⟩ := List.nodup_cons.1 hl
    have ha' : a ∉ l' := fun h => ha (hsub.subset h)
    rw [List.filter_cons_of_neg (by simpa using ha'), ih hl]
  | @cons_cons l' l a hsub ih =>
    obtain ⟨ha, hl⟩ := List.nodup_cons.1 hl
    have hcongr : (l.filter fun b => (a :: l').contains b) = l.filter fun b => l'.contains b := by
      refine List.filter_congr fun b hb => ?_
      have hne : b ≠ a := fun h => ha (h ▸ hb)
      simp [hne]
    rw [List.filter_cons_of_pos (by simp), hcongr, ih hl]

/-- The nodes and attributes of a sound forest are all different. -/
theorem Sound.nodup_targets (hf : f.Sound) : (f.nodes.flatMap Node.ownRefs).Nodup := by
  have howner : ∀ (n : Node), ∀ r ∈ n.ownRefs, owner? r = some n.id := by
    intro n r hr
    rcases List.mem_cons.1 hr with rfl | hr
    · rfl
    · rw [Node.attributeRefs] at hr
      split at hr
      · obtain ⟨a, -, rfl⟩ := List.mem_map.1 hr
        rfl
      · exact absurd hr (by simp)
  rw [List.nodup_flatMap]
  constructor
  · intro n hn
    rw [Node.ownRefs, Node.attributeRefs]
    split
    · next e he =>
      have hnames := hf.attributes n hn e he
      refine List.nodup_cons.2 ⟨?_, ?_⟩
      · intro h
        obtain ⟨a, -, ha⟩ := List.mem_map.1 h
        exact absurd ha (by simp)
      · have hnames' := hnames.map fun a b (h : Ref.attribute n.id a = .attribute n.id b) =>
          (Ref.attribute.inj h).2
        rwa [List.map_map] at hnames'
    · simp
  · have hids := List.pairwise_map.1 hf.nodup
    refine hids.imp fun {m n} hne r hm hn => hne ?_
    have h := (howner m r hm).symm.trans (howner n r hn)
    simpa using h

/-- Some of the nodes and attributes of a forest, in document order already. -/
theorem Sound.inOrder_of_sublist (hf : f.Sound) {found : List Ref}
    (h : found.Sublist (f.nodes.flatMap Node.ownRefs)) : f.inOrder found = found := by
  have htargets : ∀ r ∈ found, r.isTarget = true := by
    intro r hr
    have hr' := h.subset hr
    rw [← targets_of_refs] at hr'
    exact (List.mem_filter.1 hr').2
  have hfilter : f.inOrder found =
      (f.nodes.flatMap Node.ownRefs).filter fun r => found.contains r := by
    rw [inOrder, ← targets_of_refs, List.filter_filter]
    refine List.filter_congr fun r _ => ?_
    by_cases hr : r ∈ found
    · simp [hr, htargets r hr]
    · simp [hr]
  rw [hfilter]
  exact filter_contains_of_sublist h hf.nodup_targets

end Forest

end XmlPaths

import Mathlib.Data.List.Lattice
import Mathlib.Data.List.Pairwise
import Mathlib.Data.List.Perm.Basic
import XmlPaths.Proofs.Tree.Update

/-!
# Parents

Each node of a forest is at the top of one tree or a child of one node, never both.

* `Node.nodes_perm`, `Forest.nodes_perm`   all nodes, told by what they are children of;
* `Forest.WellFormed.parent?_of_mem_children`   a child has one parent;
* `Forest.WellFormed.parent?_top`               what is at the top has none.
-/

namespace XmlPaths

theorem Node.nodes_perm (n : Node) : n.nodes.Perm (n :: n.nodes.flatMap children) := by
  induction n using recursion with
  | leaf i l t =>
    rw [nodes_leaf]
    exact List.Perm.refl _
  | element i e cs t ih =>
    have hbelow : (cs.flatMap nodes).Perm (cs.flatMap fun c => [c] ++ c.nodes.flatMap children) :=
      List.Perm.flatMap_left cs ih
    have hcs := List.flatMap_append_perm cs (fun c => [c]) fun c => c.nodes.flatMap children
    rw [List.flatMap_singleton', ← List.flatMap_assoc] at hcs
    rw [nodes_element, List.flatMap_cons]
    exact (hbelow.trans hcs.symm).cons _

namespace Forest

theorem nodes_perm (f : Forest) : f.nodes.Perm (f.tops ++ f.nodes.flatMap Node.children) := by
  have hall : f.nodes.Perm (f.tops.flatMap fun n => [n] ++ n.nodes.flatMap Node.children) := by
    rw [nodes_eq_tops]
    exact List.Perm.flatMap_left _ fun n _ => n.nodes_perm
  have htops := List.flatMap_append_perm f.tops (fun n => [n]) fun n =>
    n.nodes.flatMap Node.children
  rw [List.flatMap_singleton', ← List.flatMap_assoc, ← nodes_eq_tops] at htops
  exact hall.trans htops.symm

section
variable {f : Forest} (hf : f.WellFormed)
include hf

theorem WellFormed.nodup_perm :
    ((f.tops ++ f.nodes.flatMap Node.children).map Node.id).Nodup :=
  (f.nodes_perm.map Node.id).nodup_iff.1 hf.nodup

/-- **A child is the child of one node only.** -/
theorem WellFormed.parent?_of_mem_children {m c : Node} (hm : m ∈ f.nodes) (hc : c ∈ m.children) :
    f.parent? c.id = some m := by
  have hnodup := hf.nodup_perm
  rw [List.map_append, List.nodup_append, List.map_flatMap, List.nodup_flatMap] at hnodup
  have hchild : m.hasChild c.id = true := List.any_eq_true.2 ⟨c, hc, beq_self_eq_true _⟩
  cases hparent : f.parent? c.id with
  | none => exact absurd hchild (List.find?_eq_none.1 hparent m hm)
  | some q =>
    have hq := List.mem_of_find?_eq_some hparent
    have hqc := List.find?_some hparent
    rw [Node.hasChild, List.any_eq_true] at hqc
    obtain ⟨d, hd, hdc⟩ := hqc
    have hsymm : Std.Symm (Function.onFun List.Disjoint fun q : Node => q.children.map Node.id) :=
      ⟨fun _ _ => List.Disjoint.symm⟩
    by_contra hne
    have hapart := hnodup.2.1.2.forall hq hm fun h => hne (congrArg some h)
    exact hapart (List.mem_map_of_mem hd) (eq_of_beq hdc ▸ List.mem_map_of_mem hc)

/-- What is at the top of a tree is no child. -/
theorem WellFormed.parent?_top {t : Tree} (ht : t ∈ f.trees) : f.parent? t.top.id = none := by
  have hnodup := hf.nodup_perm
  rw [List.map_append, List.nodup_append] at hnodup
  rw [parent?, List.find?_eq_none]
  intro q hq hchild
  rw [Node.hasChild, List.any_eq_true] at hchild
  obtain ⟨c, hc, hct⟩ := hchild
  refine hnodup.2.2 t.top.id (List.mem_map_of_mem (List.mem_map_of_mem ht)) c.id ?_
    (eq_of_beq hct).symm
  exact List.mem_map_of_mem (List.mem_flatMap.2 ⟨q, hq, hc⟩)

end

end Forest

end XmlPaths

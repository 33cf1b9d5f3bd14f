import Mathlib.Data.List.Nodup
import XmlPaths.Proofs.Tree.Update

/-!
# Copies with other identities

A copy of a node holds what the node holds, under identities that are still free.  What is changed
in the copy is changed as it would be in the node itself.

* `Node.mapIds`             a node with other identities;
* `Node.replica`            the same without its tail;
* `Node.relabel_eq_mapIds`  the copies that are planted in forests;
* `Node.update_replica`     a change of a copy;
* `Forest.Sound.plant`      a forest with a copy is sound.
-/

namespace XmlPaths

namespace Node

mutual

/-- the node with an identity for each of those in it -/
def mapIds (φ : NodeId → NodeId) : Node → Node
  | element i e cs t => element (φ i) e (mapIdsAll φ cs) t
  | leaf i l t => leaf (φ i) l t

def mapIdsAll (φ : NodeId → NodeId) : List Node → List Node
  | [] => []
  | n :: ns => n.mapIds φ :: mapIdsAll φ ns

end

/-- a copy of the node, which is followed by nothing -/
def replica (φ : NodeId → NodeId) (n : Node) : Node := (n.mapIds φ).withTail none

theorem mapIdsAll_eq_map (φ : NodeId → NodeId) (ns : List Node) :
    mapIdsAll φ ns = ns.map (mapIds φ) := by
  induction ns with
  | nil => rfl
  | cons n ns ih => rw [mapIdsAll, ih, List.map_cons]

section
variable (φ : NodeId → NodeId)

theorem mapIds_element (i : NodeId) (e : Element) (cs : List Node) (t : Option String) :
    (element i e cs t).mapIds φ = element (φ i) e (cs.map (mapIds φ)) t := by
  rw [mapIds, mapIdsAll_eq_map]

theorem mapIds_leaf (i : NodeId) (l : Leaf) (t : Option String) :
    (leaf i l t).mapIds φ = leaf (φ i) l t := by
  rw [mapIds]

@[simp] theorem id_mapIds (n : Node) : (n.mapIds φ).id = φ n.id := by
  cases n with
  | element i e cs t => rw [mapIds_element]; rfl
  | leaf i l t => rw [mapIds_leaf]; rfl

@[simp] theorem element?_mapIds (n : Node) : (n.mapIds φ).element? = n.element? := by
  cases n with
  | element i e cs t => rw [mapIds_element]; rfl
  | leaf i l t => rw [mapIds_leaf]; rfl

theorem children_mapIds (n : Node) : (n.mapIds φ).children = n.children.map (mapIds φ) := by
  cases n with
  | element i e cs t => rw [mapIds_element]; rfl
  | leaf i l t => rw [mapIds_leaf]; rfl

theorem nodes_mapIds (n : Node) : (n.mapIds φ).nodes = n.nodes.map (mapIds φ) := by
  induction n using recursion with
  | leaf i l t => rw [mapIds_leaf, nodes_leaf, nodes_leaf, List.map_singleton, mapIds_leaf]
  | element i e cs t ih =>
    rw [mapIds_element, nodes_element, nodes_element, List.map_cons, mapIds_element,
      List.flatMap_map, List.map_flatMap]
    exact congrArg _ (List.flatMap_congr ih)

theorem ids_mapIds (n : Node) : (n.mapIds φ).ids = n.ids.map φ := by
  rw [ids, ids, nodes_mapIds, List.map_map, List.map_map]
  exact List.map_congr_left fun m _ => id_mapIds φ m

theorem element?_withTail (t : Option String) (n : Node) :
    (n.withTail t).element? = n.element? := by
  cases n <;> rfl

theorem children_withTail (t : Option String) (n : Node) :
    (n.withTail t).children = n.children := by
  cases n <;> rfl

theorem ids_withTail (t : Option String) (n : Node) : (n.withTail t).ids = n.ids := by
  rw [ids, ids, nodes_eq, nodes_eq, List.map_cons, List.map_cons, id_withTail, children_withTail]

theorem mapIds_withTail (t : Option String) (n : Node) :
    (n.withTail t).mapIds φ = (n.mapIds φ).withTail t := by
  cases n with
  | element i e cs s => rw [withTail, mapIds_element, mapIds_element, withTail]
  | leaf i l s => rw [withTail, mapIds_leaf, mapIds_leaf, withTail]

@[simp] theorem id_replica (n : Node) : (n.replica φ).id = φ n.id := by
  rw [replica, id_withTail, id_mapIds]

theorem element?_replica (n : Node) : (n.replica φ).element? = n.element? := by
  rw [replica, element?_withTail, element?_mapIds]

theorem ids_replica (n : Node) : (n.replica φ).ids = n.ids.map φ := by
  rw [replica, ids_withTail, ids_mapIds]

theorem tail_replica (n : Node) : (n.replica φ).tail = none := by
  rw [replica]
  cases n.mapIds φ <;> rfl

theorem nodes_replica (n : Node) : (n.replica φ).nodes =
    n.replica φ :: (n.children.flatMap nodes).map (mapIds φ) := by
  rw [nodes_eq, replica, children_withTail, children_mapIds, List.flatMap_map, List.map_flatMap]
  exact congrArg _ (List.flatMap_congr fun c _ => nodes_mapIds φ c)

/-- Each node has its counterpart in a copy. -/
theorem exists_mem_replica {d n : Node} (hd : d ∈ n.nodes) :
    ∃ d' ∈ (n.replica φ).nodes, d'.id = φ d.id ∧ d'.element? = d.element? := by
  rw [nodes_eq, List.mem_cons] at hd
  rw [nodes_replica]
  rcases hd with rfl | hd
  · exact ⟨_, List.mem_cons_self, id_replica φ d, element?_replica φ d⟩
  · exact ⟨_, List.mem_cons_of_mem _ (List.mem_map_of_mem hd), id_mapIds φ d,
      element?_mapIds φ d⟩

theorem exists_of_mem_replica {d' n : Node} (hd : d' ∈ (n.replica φ).nodes) :
    ∃ d ∈ n.nodes, d'.element? = d.element? := by
  rw [nodes_replica, List.mem_cons, List.mem_map] at hd
  rcases hd with rfl | ⟨d, hd, rfl⟩
  · exact ⟨n, self_mem_nodes n, element?_replica φ n⟩
  · exact ⟨d, (children_sublist_nodes n).subset hd, element?_mapIds φ d⟩

end

/-! ## copies as they are made -/

section
variable {φ : NodeId → NodeId}

theorem relabelAll_eq_map {cs : List Node}
    (ih : ∀ c ∈ cs, ∀ k, c.ids.map φ = List.range' k c.ids.length →
      c.relabel k = (c.mapIds φ, k + c.ids.length)) {k : NodeId}
    (h : (cs.flatMap ids).map φ = List.range' k (cs.flatMap ids).length) :
    relabelAll k cs = (cs.map (mapIds φ), k + (cs.flatMap ids).length) := by
  induction cs generalizing k with
  | nil => rfl
  | cons c cs ih' =>
    rw [List.flatMap_cons, List.length_append, List.map_append, ← List.range'_append_1] at h
    obtain ⟨hc, hcs⟩ := List.append_inj h (by rw [List.length_map, List.length_range'])
    rw [relabelAll, ih c List.mem_cons_self k hc]
    dsimp only
    rw [ih' (fun d hd => ih d (List.mem_cons_of_mem _ hd)) hcs]
    rw [List.map_cons, List.flatMap_cons, List.length_append, Nat.add_assoc]

/-- Copies have identities in a row. -/
theorem relabel_eq_mapIds {n : Node} {k : NodeId}
    (h : n.ids.map φ = List.range' k n.ids.length) :
    n.relabel k = (n.mapIds φ, k + n.ids.length) := by
  induction n using recursion generalizing k with
  | leaf i l t =>
    rw [ids_leaf] at h ⊢
    have hi : φ i = k := (List.cons.inj h).1
    rw [relabel, mapIds_leaf, hi, List.length_singleton]
  | element i e cs t ih =>
    rw [ids_element, List.length_cons, List.map_cons, List.range'_succ] at h
    obtain ⟨hi, hcs⟩ := List.cons.inj h
    rw [relabel, relabelAll_eq_map (fun c hc k => ih c hc) hcs, mapIds_element, hi, ids_element,
      List.length_cons, Nat.add_right_comm, Nat.add_assoc]

theorem exists_map_eq_range' {l : List NodeId} (hl : l.Nodup) (k : NodeId) :
    ∃ φ : NodeId → NodeId, l.map φ = List.range' k l.length := by
  refine ⟨fun i => k + l.idxOf i, List.ext_getElem (by simp) fun j hj hj' => ?_⟩
  rw [List.getElem_map, List.getElem_range', hl.idxOf_getElem, Nat.one_mul]

/-! ## changes of copies -/

variable {ψ : NodeId → NodeId} {x : NodeId} {g g' : Node → Node}

theorem mapIds_congr {n : Node} (h : ∀ i ∈ n.ids, ψ i = φ i) : n.mapIds φ = n.mapIds ψ := by
  induction n using recursion with
  | leaf i l t => rw [mapIds_leaf, mapIds_leaf, h i (by rw [ids_leaf]; exact List.mem_cons_self)]
  | element i e cs t ih =>
    rw [ids_element] at h
    have hcs : cs.map (mapIds φ) = cs.map (mapIds ψ) := List.map_congr_left fun c hc =>
      ih c hc fun j hj => h j (List.mem_cons_of_mem _ (List.mem_flatMap.2 ⟨c, hc, hj⟩))
    rw [mapIds_element, mapIds_element, hcs, h i List.mem_cons_self]

/-- A node is changed in a copy as its counterpart is. -/
theorem update_mapIds {n : Node} (hφ : ∀ i ∈ n.ids, φ i = φ x → i = x)
    (hψ : ∀ i ∈ n.ids, ψ i = φ i)
    (hg : ∀ m ∈ n.nodes, m.id = x → g' (m.mapIds φ) = (g m).mapIds ψ) :
    (n.mapIds φ).update (φ x) g' = (n.update x g).mapIds ψ := by
  induction n using recursion with
  | leaf i l t =>
    have hi : i ∈ (leaf i l t).ids := id_mem_ids (leaf i l t)
    by_cases h : (leaf i l t).id = x
    · rw [update_self h, ← hg _ (self_mem_nodes _) h, update_self]
      rw [id_mapIds, h]
    · rw [update_leaf (show i ≠ x from h), mapIds_leaf, mapIds_leaf,
        update_leaf fun heq => h (hφ i hi heq), hψ i hi]
  | element i e cs t ih =>
    have hi : i ∈ (element i e cs t).ids := id_mem_ids (element i e cs t)
    by_cases h : (element i e cs t).id = x
    · rw [update_self h, ← hg _ (self_mem_nodes _) h, update_self]
      rw [id_mapIds, h]
    · have hsub : ∀ c ∈ cs, ∀ j ∈ c.ids, j ∈ (element i e cs t).ids := fun c hc j hj => by
        rw [ids_element]
        exact List.mem_cons_of_mem _ (List.mem_flatMap.2 ⟨c, hc, hj⟩)
      have hcs : (cs.map (mapIds φ)).map (update (φ x) g') =
          (cs.map (update x g)).map (mapIds ψ) := by
        rw [List.map_map, List.map_map]
        refine List.map_congr_left fun c hc => ih c hc (fun j hj => hφ j (hsub c hc j hj))
          (fun j hj => hψ j (hsub c hc j hj)) fun m hm => hg m ?_
        rw [nodes_element]
        exact List.mem_cons_of_mem _ (List.mem_flatMap.2 ⟨c, hc, hm⟩)
      rw [update_element (show i ≠ x from h), mapIds_element, mapIds_element,
        update_element (fun heq => h (hφ i hi heq)), hcs, hψ i hi]

theorem update_withTail {t : Option String}
    (hg : ∀ m : Node, g (m.withTail t) = (g m).withTail t) (n : Node) :
    (n.withTail t).update x g = (n.update x g).withTail t := by
  by_cases h : n.id = x
  · rw [update_self h, update_self ((id_withTail t n).trans h), hg]
  · cases n with
    | leaf i l s =>
      rw [withTail, update_leaf (show i ≠ x from h), update_leaf (show i ≠ x from h), withTail]
    | element i e cs s =>
      rw [withTail, update_element (show i ≠ x from h), update_element (show i ≠ x from h),
        withTail]

theorem update_replica {n : Node} (hφ : ∀ i ∈ n.ids, φ i = φ x → i = x)
    (hψ : ∀ i ∈ n.ids, ψ i = φ i)
    (hg : ∀ m ∈ n.nodes, m.id = x → g' (m.mapIds φ) = (g m).mapIds ψ)
    (htail : ∀ m : Node, g' (m.withTail none) = (g' m).withTail none) :
    (n.replica φ).update (φ x) g' = (n.update x g).replica ψ := by
  rw [replica, update_withTail htail, update_mapIds hφ hψ hg]
  rfl

end

end Node

/-! ## forests with copies -/

namespace Forest

variable {f : Forest}

theorem ids_append (trees : List Tree) (t : Tree) (next : NodeId) :
    (Forest.mk (trees ++ [t]) next).ids = (Forest.mk trees next).ids ++ t.top.ids := by
  rw [ids, nodes, List.flatMap_append, List.flatMap_singleton, List.map_append]
  rfl

/-- A copy has identities of its own, and the forest with it is sound. -/
theorem Sound.plant (hf : f.Sound) {root : NodeId} {n : Node} (hn : f.node? root = some n) :
    ∃ φ : NodeId → NodeId, (∀ i ∈ n.ids, ∀ j ∈ n.ids, φ i = φ j → i = j) ∧
      (f.plant (n.withTail none)).1.trees = f.trees ++ [⟨f.next, true, n.replica φ⟩] ∧
      (f.plant (n.withTail none)).1.Sound ∧
      (f.plant (n.withTail none)).1.node? f.next = some (n.replica φ) := by
  have hnodup := hf.nodup_ids hn
  obtain ⟨φ, hφ⟩ := Node.exists_map_eq_range' hnodup f.next
  have hcopy : (n.withTail none).relabel f.next =
      (n.replica φ, f.next + n.ids.length) := by
    have hids := Node.ids_withTail none n
    rw [Node.relabel_eq_mapIds (by rw [hids, hφ]), hids, Node.mapIds_withTail]
    rfl
  have hplant : (f.plant (n.withTail none)).1 =
      ⟨f.trees ++ [⟨f.next, true, n.replica φ⟩], f.next + n.ids.length⟩ := by
    rw [Forest.plant, hcopy]
  have hfresh : ∀ y ∈ (n.replica φ).ids, f.next ≤ y ∧ y < f.next + n.ids.length := by
    intro y hy
    rw [Node.ids_replica, hφ, List.mem_range'_1] at hy
    exact hy
  have hsound : (Forest.mk (f.trees ++ [⟨f.next, true, n.replica φ⟩])
      (f.next + n.ids.length)).Sound := by
    refine ⟨⟨?_, ?_⟩, ?_⟩
    · rw [ids_append, List.nodup_append]
      refine ⟨hf.nodup, ?_, fun y hy z hz hyz => ?_⟩
      · rw [Node.ids_replica, hφ]
        exact List.nodup_range'
      · have hlt : y < f.next := hf.lt_next y hy
        exact Nat.not_lt_of_le (hyz ▸ (hfresh z hz).1) hlt
    · intro y hy
      rw [ids_append] at hy
      rcases List.mem_append.1 hy with hy | hy
      · exact Nat.lt_of_lt_of_le (hf.lt_next y hy) (Nat.le_add_right _ _)
      · exact (hfresh y hy).2
    · intro m hm
      rw [nodes, List.flatMap_append, List.flatMap_singleton] at hm
      rcases List.mem_append.1 hm with hm | hm
      · exact hf.attributes m hm
      · obtain ⟨d, hd, hsame⟩ := Node.exists_of_mem_replica φ hm
        rw [hsame]
        exact hf.attributes d ((nodes_sublist_of_mem (mem_of_node? hn).1).subset hd)
  refine ⟨φ, List.inj_on_of_nodup_map (hφ ▸ List.nodup_range'), by rw [hplant], hplant ▸ hsound, ?_⟩
  have hid : (n.replica φ).id = f.next := by
    rw [Node.ids, Node.nodes_eq, List.map_cons, List.map_cons, List.length_cons,
      List.range'_succ] at hφ
    rw [Node.id_replica, (List.cons.inj hφ).1]
  rw [hplant]
  have hfound := hsound.node?_of_mem (n := n.replica φ) (by
    rw [nodes, List.flatMap_append, List.flatMap_singleton]
    exact List.mem_append_right _ (Node.self_mem_nodes _))
  rwa [hid] at hfound

theorem mem_ids_iff {y : NodeId} : y ∈ f.ids ↔ ∃ t ∈ f.trees, y ∈ t.top.ids := by
  rw [ids, nodes, List.map_flatMap, List.mem_flatMap]
  rfl

/-- The last tree has identities of its own. -/
theorem Sound.not_mem_of_last (hf : f.Sound) {trees : List Tree} {t : Tree}
    (htrees : f.trees = trees ++ [t]) {y : NodeId} (hy : y ∈ t.top.ids) :
    ∀ s ∈ trees, y ∉ s.top.ids := by
  intro s hs hys
  have hnodup := hf.nodup
  have hf' : f = ⟨trees ++ [t], f.next⟩ := by rw [← htrees]
  rw [hf', ids_append, List.nodup_append] at hnodup
  exact hnodup.2.2 y (mem_ids_iff.2 ⟨s, hs, hys⟩) y hy rfl

end Forest

end XmlPaths

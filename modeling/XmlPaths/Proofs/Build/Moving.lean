import XmlPaths.Proofs.Build.Additions
import XmlPaths.Proofs.Selection.Keeping
import XmlPaths.Proofs.Tree.Replicas

/-!
# Trees that are put into others

A node without parent is the topmost one of a tree.  Put somewhere into another tree it takes along
what is below it, and all that changes for other nodes is that one of them has a further child.

* `Forest.exists_top_of_parent?`   a node without parent is at the top;
* `Forest.Sound.any_lineage_of_mem`   what is at the top is above all other nodes of the tree;
* `Forest.keeps_grow`              a change of one node that keeps what that node was;
* `Forest.Sound.move_keeps`        a tree that is moved into another one;
* `Forest.Sound.insert_keeps`      a tree that is inserted at a place.
-/

namespace XmlPaths

namespace Node

/-! ## above and below -/

theorem exists_parent_of_mem {m n : Node} (h : m ∈ n.nodes) :
    m = n ∨ ∃ q ∈ n.nodes, m ∈ q.children := by
  induction n using recursion with
  | leaf i l t =>
    rw [nodes_leaf, List.mem_singleton] at h
    exact .inl h
  | element i e cs t ih =>
    rw [nodes_element, List.mem_cons, List.mem_flatMap] at h
    rcases h with rfl | ⟨c, hc, hm⟩
    · exact .inl rfl
    · right
      rcases ih c hc hm with rfl | ⟨q, hq, hmq⟩
      · exact ⟨_, self_mem_nodes _, hc⟩
      · refine ⟨q, ?_, hmq⟩
        rw [nodes_element]
        exact List.mem_cons_of_mem _ (List.mem_flatMap.2 ⟨c, hc, hq⟩)

theorem lineageInAll?_eq (x : NodeId) (cs : List Node) :
    lineageInAll? x cs = cs.findSome? (lineage? x) := by
  induction cs with
  | nil => rfl
  | cons c cs ih =>
    rw [lineageInAll?, ih, List.findSome?_cons]
    cases c.lineage? x <;> rfl

/-- The top of a tree is the last one above any of its nodes. -/
theorem mem_of_lineage? {x : NodeId} {n : Node} {l : List Node} (h : n.lineage? x = some l) :
    x ∈ n.ids ∧ n ∈ l := by
  induction n using recursion generalizing l with
  | leaf i l' t =>
    rw [lineage?] at h
    split at h
    · next hi =>
      rw [← Option.some.inj h, ids_leaf, hi]
      exact ⟨List.mem_cons_self, List.mem_cons_self⟩
    · exact absurd h (by simp)
  | element i e cs t ih =>
    rw [lineage?] at h
    split at h
    · next hi =>
      rw [← Option.some.inj h, ids_element, hi]
      exact ⟨List.mem_cons_self, List.mem_cons_self⟩
    · rw [lineageInAll?_eq] at h
      obtain ⟨l', hl', rfl⟩ := Option.map_eq_some_iff.1 h
      obtain ⟨c, hc, hl'⟩ := List.exists_of_findSome?_eq_some hl'
      rw [ids_element]
      exact ⟨List.mem_cons_of_mem _ (List.mem_flatMap.2 ⟨c, hc, (ih c hc hl').1⟩), by simp⟩

theorem lineage?_ne_none {x : NodeId} {n : Node} (h : x ∈ n.ids) : n.lineage? x ≠ none := by
  induction n using recursion with
  | leaf i l t =>
    rw [ids_leaf, List.mem_singleton] at h
    rw [lineage?, if_pos h.symm]
    simp
  | element i e cs t ih =>
    rw [lineage?]
    split
    · simp
    · next hi =>
      rw [ids_element, List.mem_cons, List.mem_flatMap] at h
      obtain ⟨c, hc, hx⟩ := h.resolve_left fun h => hi h.symm
      rw [lineageInAll?_eq, Ne, Option.map_eq_none_iff, List.findSome?_eq_none_iff]
      exact fun hnone => ih c hc hx (hnone c hc)

/-! ## changes that keep what the node was -/

theorem keptIn_insertAt (k : Nat) (z n : Node) : n.KeptIn (insertAt k z n) := by
  refine ⟨fun e he => ⟨e, by rwa [element?_insertAt], rfl, List.Sublist.refl _⟩, ?_⟩
  cases n with
  | leaf i l t => exact List.Sublist.refl _
  | element i e cs t =>
    have hsub : cs.Sublist (cs.take k ++ z :: cs.drop k) := by
      have hcs := ((List.Sublist.refl (cs.take k)).append (List.sublist_cons_self z (cs.drop k)))
      rwa [List.take_append_drop] at hcs
    exact hsub.map id

theorem keptIn_addAttribute {n : Node} {a : String} (ha : n.hasAttribute a = false) :
    n.KeptIn (n.addAttribute a) := by
  cases n with
  | leaf i l t => exact KeptIn.refl _
  | element i e cs t =>
    refine ⟨fun e' he' => ?_, List.Sublist.refl _⟩
    obtain rfl : e = e' := Option.some.inj he'
    have hnone : ¬ (e.attribute? ⟨none, a⟩).isSome = true := by
      rw [hasAttribute] at ha
      exact Bool.eq_false_iff.1 ha
    refine ⟨e.setAttribute ⟨none, a⟩ "", rfl, ?_⟩
    rw [Element.setAttribute, if_neg hnone]
    exact ⟨rfl, List.sublist_append_left _ _⟩

theorem keptIn_withTail (t : Option String) (n : Node) : n.KeptIn (n.withTail t) := by
  refine ⟨fun e he => ⟨e, by rwa [element?_withTail], rfl, List.Sublist.refl _⟩, ?_⟩
  rw [children_withTail]

end Node

namespace Forest

variable {f : Forest} {x : NodeId} {n : Node}

/-- A node without parent is the topmost one of a tree. -/
theorem exists_top_of_parent? (hx : f.node? x = some n) (hp : f.parent? x = none) :
    ∃ t ∈ f.trees, t.top = n := by
  obtain ⟨hmem, rfl⟩ := mem_of_node? hx
  obtain ⟨t, ht, hnt⟩ := List.mem_flatMap.1 hmem
  refine ⟨t, ht, ?_⟩
  rcases Node.exists_parent_of_mem hnt with rfl | ⟨q, hq, hnq⟩
  · rfl
  · have hnone := List.find?_eq_none.1 hp q (List.mem_flatMap.2 ⟨t, ht, hq⟩)
    refine absurd (List.any_eq_true.2 ⟨n, hnq, beq_self_eq_true n.id⟩) hnone

/-- Of two trees with a node in common there is but one. -/
theorem Sound.tree_unique (hf : f.Sound) {before after : List Tree} {t : Tree}
    (htrees : f.trees = before ++ t :: after) {y : NodeId} (hy : y ∈ t.top.ids) {s : Tree}
    (hs : s ∈ before ++ after) : y ∉ s.top.ids := by
  have hnodup := hf.nodup
  have hids : f.ids = (before.flatMap fun t => t.top.ids) ++
      (t.top.ids ++ after.flatMap fun t => t.top.ids) := by
    rw [ids, nodes, htrees, List.flatMap_append, List.flatMap_cons, List.map_append,
      List.map_append, List.map_flatMap, List.map_flatMap]
    rfl
  rw [hids, List.nodup_append, List.nodup_append] at hnodup
  obtain ⟨-, ⟨-, -, hafter⟩, hbefore⟩ := hnodup
  intro hys
  rcases List.mem_append.1 hs with hs | hs
  · exact hbefore y (List.mem_flatMap.2 ⟨s, hs, hys⟩) y (List.mem_append_left _ hy) rfl
  · exact hafter y hy y (List.mem_flatMap.2 ⟨s, hs, hys⟩) rfl

theorem Sound.tree?_of_mem (hf : f.Sound) {t : Tree} (ht : t ∈ f.trees) {y : NodeId}
    (hy : y ∈ t.top.ids) : f.tree? y = some t := by
  have hiff : ∀ s : Tree, (s.top.node? y).isSome = true ↔ y ∈ s.top.ids := by
    intro s
    rw [Node.node?, List.find?_isSome, Node.ids, List.mem_map]
    simp
  cases htree : f.tree? y with
  | none => exact absurd ((hiff t).2 hy) (List.find?_eq_none.1 htree t ht)
  | some s =>
    have hfound : (s.top.node? y).isSome = true := by
      rw [tree?] at htree
      simpa using List.find?_some htree
    have hys : y ∈ s.top.ids := (hiff s).1 hfound
    obtain ⟨before, after, htrees⟩ := List.append_of_mem ht
    have hs : s ∈ before ++ t :: after := htrees ▸ List.mem_of_find?_eq_some htree
    rcases List.mem_append.1 hs with hs | hs
    · exact absurd hys (hf.tree_unique htrees hy (List.mem_append_left _ hs))
    · rcases List.mem_cons.1 hs with rfl | hs
      · rfl
      · exact absurd hys (hf.tree_unique htrees hy (List.mem_append_right _ hs))

/-- What is at the top of a tree is above all of its nodes. -/
theorem Sound.any_lineage_of_mem (hf : f.Sound) {t : Tree} (ht : t ∈ f.trees) {y : NodeId}
    (hy : y ∈ t.top.ids) : (f.lineage y).any (·.id == t.top.id) = true := by
  obtain ⟨before, after, htrees⟩ := List.append_of_mem ht
  have hnone : before.findSome? (fun s => s.top.lineage? y) = none := by
    rw [List.findSome?_eq_none_iff]
    intro s hs
    cases hl : s.top.lineage? y with
    | none => rfl
    | some l =>
      exact absurd (Node.mem_of_lineage? hl).1
        (hf.tree_unique htrees hy (List.mem_append_left _ hs))
  obtain ⟨l, hl⟩ := Option.ne_none_iff_exists'.1 (Node.lineage?_ne_none hy)
  have hlineage : f.lineage y = l := by
    rw [lineage, htrees, List.findSome?_append, hnone, Option.none_or, List.findSome?_cons, hl]
    rfl
  rw [hlineage, List.any_eq_true]
  exact ⟨t.top, (Node.mem_of_lineage? hl).2, beq_self_eq_true _⟩

/-! ## the forest without one of its trees -/

section
variable {before after : List Tree} {t : Tree} (htrees : f.trees = before ++ t :: after)
include htrees

theorem mem_nodes_iff_of_trees {m : Node} :
    m ∈ f.nodes ↔ m ∈ t.top.nodes ∨ m ∈ (Forest.mk (before ++ after) f.next).nodes := by
  rw [nodes, nodes, htrees, List.flatMap_append, List.flatMap_cons, List.flatMap_append,
    List.mem_append, List.mem_append, List.mem_append]
  exact or_left_comm

variable (hf : f.Sound)
include hf

theorem Sound.rest : (Forest.mk (before ++ after) f.next).Sound := by
  have hsub : (Forest.mk (before ++ after) f.next).nodes.Sublist f.nodes := by
    rw [nodes, nodes, htrees]
    exact ((List.Sublist.refl before).append (List.sublist_cons_self t after)).flatMap _
  refine ⟨⟨(hsub.map Node.id).nodup hf.nodup, fun y hy => ?_⟩, fun m hm => ?_⟩
  · exact hf.lt_next y ((hsub.map Node.id).subset hy)
  · exact hf.attributes m (hsub.subset hm)

theorem Sound.not_mem_rest {y : NodeId} (hy : y ∈ t.top.ids) :
    y ∉ (Forest.mk (before ++ after) f.next).ids := by
  rw [mem_ids_iff]
  rintro ⟨s, hs, hys⟩
  exact hf.tree_unique htrees hy hs hys

theorem Sound.node?_rest {y : NodeId} {m : Node} (hm : f.node? y = some m) (hy : y ∉ t.top.ids) :
    (Forest.mk (before ++ after) f.next).node? y = some m := by
  obtain ⟨hmem, rfl⟩ := mem_of_node? hm
  refine (Sound.rest htrees hf).node?_of_mem ?_
  refine ((mem_nodes_iff_of_trees htrees).1 hmem).resolve_left fun h => hy ?_
  exact List.mem_map_of_mem h

theorem Sound.extract?_top :
    f.extract? t.top.id = some (t.top, Forest.mk (before ++ after) f.next) := by
  have hapart : ∀ s ∈ before ++ after, t.top.id ∉ s.top.ids := fun s hs =>
    hf.tree_unique htrees t.top.id_mem_ids hs
  have hstay : ∀ {l : List Tree}, l ⊆ before ++ after →
      (l.filter (·.top.id ≠ t.top.id)).map (fun s => { s with top := s.top.without t.top.id }) =
        l := by
    intro l hl
    have hkept : l.filter (·.top.id ≠ t.top.id) = l := by
      rw [List.filter_eq_self]
      refine fun s hs => decide_eq_true fun hid => hapart s (hl hs) ?_
      rw [← hid]
      exact s.top.id_mem_ids
    rw [hkept]
    exact map_eq_self fun s hs =>
      congrArg (Tree.mk s.document s.attached) (Node.without_of_not_mem (hapart s (hl hs)))
  have hfound : f.node? t.top.id = some t.top :=
    hf.node?_of_mem ((mem_nodes_iff_of_trees htrees).2 (.inl t.top.self_mem_nodes))
  have hrest : (f.trees.filter (·.top.id ≠ t.top.id)).map
      (fun s => { s with top := s.top.without t.top.id }) = before ++ after := by
    rw [htrees, List.filter_append, List.filter_cons_of_neg (by simp), List.map_append,
      hstay (List.subset_append_left _ _), hstay (List.subset_append_right _ _)]
  rw [extract?, hfound, Option.map_some, hrest]

end

/-! ## changes that keep what was there -/

theorem keptIn_update {g : Node → Node} (hid : ∀ n : Node, (g n).id = n.id) {m : Node}
    (hself : m.id = x → m.KeptIn (g m)) : m.KeptIn (m.update x g) := by
  by_cases hm : m.id = x
  · rw [Node.update_self hm]
    exact hself hm
  · cases m with
    | leaf i l t =>
      rw [Node.update_leaf (show i ≠ x from hm)]
      exact Node.KeptIn.refl _
    | element i e cs t =>
      rw [Node.update_element (show i ≠ x from hm)]
      refine ⟨fun e' he' => ⟨e', he', rfl, List.Sublist.refl _⟩, ?_⟩
      have hsame : (cs.map (Node.update x g)).map Node.id = cs.map Node.id := by
        rw [List.map_map]
        exact List.map_congr_left fun c _ => Node.id_update (fun d hd => (hid d).trans hd) c
      show (cs.map Node.id).Sublist ((cs.map (Node.update x g)).map Node.id)
      rw [hsame]

theorem keeps_grow {g : Node → Node} {next : NodeId} (hf : f.Sound)
    (hgrow : (f.grow x g next).Sound) (hid : ∀ n : Node, (g n).id = n.id)
    (hkeep : ∀ n d : Node, d ∈ n.nodes → d ≠ n → d ∈ (g n).nodes)
    (hself : ∀ n, f.node? x = some n → n.KeptIn (g n)) : f.Keeps (f.grow x g next) := by
  intro y m hm
  refine ⟨_, node?_grow_of_keeps hgrow hf hm hid hkeep, keptIn_update hid fun hmx => hself m ?_⟩
  rw [← hmx, (mem_of_node? hm).2, hm]

/-! ## moving a tree -/

/-- a place of the forest where a node becomes the child of another one -/
structure Place.Inside (f : Forest) (p : Place) : Prop where
  node : p.node ∈ f.ids
  leaf : ∀ y, p = .first y ∨ p = .last y → f.isLeaf y = false
  child : ∀ s, p = .after s → ∃ m, f.parent? s = some m

theorem graft_eq_grow {q : NodeId} {k : Nat} {p : Place}
    (h : f.put n p = f.grow q (Node.insertAt k n) (f.next + 1)) :
    f.graft n p = f.grow q (Node.insertAt k n) f.next := by
  have hnext : (f.graft n p).next = f.next := by
    cases p with
    | first y => rfl
    | last y => rfl
    | after y =>
      rw [graft]
      cases f.parent? y <;> rfl
  have htrees : (f.graft n p).trees = (f.put n p).trees := by
    cases p with
    | first y => rfl
    | last y => rfl
    | after y =>
      have hparent : Forest.parent? { f with next := f.next + 1 } y = f.parent? y := rfl
      rw [put, graft, graft, hparent]
      cases f.parent? y <;> rfl
  rw [h] at htrees
  show Forest.mk (f.graft n p).trees (f.graft n p).next = _
  rw [htrees, hnext]
  rfl

theorem exists_node?_of_mem_ids {y : NodeId} (hy : y ∈ f.ids) : ∃ m, f.node? y = some m := by
  rw [← Option.ne_none_iff_exists']
  exact fun h => node?_eq_none_iff.1 h hy

theorem Place.Inside.exists_graft_eq {p : Place} (h : p.Inside f) (hf : f.Sound) (n : Node) :
    ∃ q m k, f.node? q = some m ∧ m.isElement = true ∧
      f.graft n p = f.grow q (Node.insertAt k n) f.next := by
  obtain ⟨m, hm⟩ := exists_node?_of_mem_ids h.node
  cases p with
  | first y =>
    exact ⟨y, m, 0, hm, isElement_of_isLeaf hm (h.leaf y (.inl rfl)), rfl⟩
  | last y =>
    obtain ⟨k, hput⟩ := put_last hf n y
    exact ⟨y, m, k, hm, isElement_of_isLeaf hm (h.leaf y (.inr rfl)), graft_eq_grow hput⟩
  | after y =>
    obtain ⟨q, hq⟩ := h.child y rfl
    obtain ⟨hleaf, k, hput⟩ := put_after_child hf n hq
    have hfound := hf.node?_of_mem (List.mem_of_find?_eq_some hq)
    exact ⟨q.id, q, k, hfound, isElement_of_isLeaf hfound hleaf, graft_eq_grow hput⟩

section
variable {before after : List Tree} {t : Tree} (htrees : f.trees = before ++ t :: after)
  (hf : f.Sound)
include htrees hf

/-- A place outside of a tree is there without that tree as well. -/
theorem Place.Inside.rest {p : Place} (h : p.Inside f) (hp : p.node ∉ t.top.ids) :
    p.Inside (Forest.mk (before ++ after) f.next) := by
  obtain ⟨m, hm⟩ := exists_node?_of_mem_ids h.node
  have hrest := Sound.node?_rest htrees hf hm hp
  have hleaf : (Forest.mk (before ++ after) f.next).isLeaf p.node = f.isLeaf p.node := by
    rw [isLeaf, isLeaf, hm, hrest]
  refine ⟨mem_ids_of_node? hrest, fun y hy => ?_, fun s hs => ?_⟩
  · have hnode : p.node = y := by rcases hy with rfl | rfl <;> rfl
    rw [← hnode, hleaf, hnode]
    exact h.leaf y hy
  · subst hs
    obtain ⟨q, hq⟩ := h.child s rfl
    have hchild : q.hasChild s = true := List.find?_some hq
    rw [← Option.ne_none_iff_exists', parent?]
    intro hnone
    rcases (mem_nodes_iff_of_trees htrees).1 (List.mem_of_find?_eq_some hq) with hmem | hmem
    · rw [Node.hasChild, List.any_eq_true] at hchild
      obtain ⟨c, hc, hcs⟩ := hchild
      have hid : c.id = s := by simpa using hcs
      exact hp (Node.ids_subset_of_mem hmem (hid ▸ List.mem_map_of_mem
        (Node.mem_nodes_of_mem_children hc)))
    · exact List.find?_eq_none.1 hnone q hmem hchild

/-- The tree is put among the children of a node of another one. -/
theorem Sound.graft_rest {q : NodeId} {m : Node}
    (hm : (Forest.mk (before ++ after) f.next).node? q = some m) (hel : m.isElement = true)
    (k : Nat) :
    ((Forest.mk (before ++ after) f.next).grow q (Node.insertAt k t.top) f.next).Sound ∧
      f.Keeps ((Forest.mk (before ++ after) f.next).grow q (Node.insertAt k t.top) f.next) := by
  have hrest := Sound.rest htrees hf
  have htop : ∀ d ∈ t.top.nodes, d ∈ f.nodes := fun d hd =>
    (mem_nodes_iff_of_trees htrees).2 (.inl hd)
  have hgrow :
      ((Forest.mk (before ++ after) f.next).grow q (Node.insertAt k t.top) f.next).Sound := by
    refine hrest.grow_of_apart hm (Node.ids_insertAt hel)
      (hf.nodup_ids (hf.node?_of_mem (htop _ t.top.self_mem_nodes)))
      (fun y hy => Sound.not_mem_rest htrees hf hy) (fun y hy => ?_) (Nat.le_refl _) ?_
    · obtain ⟨d, hd, rfl⟩ := List.mem_map.1 hy
      exact hf.lt_next _ (List.mem_map_of_mem (htop d hd))
    · refine Node.attributes_insertAt (fun d hd => hf.attributes d (htop d hd)) fun d hd => ?_
      exact hrest.attributes d ((nodes_sublist_of_mem (mem_of_node? hm).1).subset hd)
  have hkeeps := keeps_grow hrest hgrow (fun d => Node.id_insertAt k t.top d)
    (fun _ _ => Node.nodes_insertAt_subset) (fun d _ => Node.keptIn_insertAt k t.top d)
  refine ⟨hgrow, fun y d hd => ?_⟩
  by_cases hy : y ∈ t.top.ids
  · -- a node of the tree, which is found where the tree was put
    obtain ⟨hmem, rfl⟩ := mem_of_node? hd
    obtain ⟨d', hd', heq⟩ := List.mem_map.1 hy
    obtain rfl : d' = d := hf.eq_of_id (htop d' hd') hmem heq
    refine ⟨d', hgrow.node?_of_mem ?_, Node.KeptIn.refl d'⟩
    have hplace := node?_grow_of_keeps hgrow hrest hm (fun d => Node.id_insertAt k t.top d)
      fun _ _ => Node.nodes_insertAt_subset
    rw [Node.update_self (mem_of_node? hm).2] at hplace
    refine (nodes_sublist_of_mem (mem_of_node? hplace).1).subset ?_
    refine (Node.nodes_sublist_of_mem (Node.mem_nodes_of_mem_children ?_)).subset hd'
    rw [Node.children_insertAt hel]
    exact List.mem_append_right _ List.mem_cons_self
  · exact hkeeps y d (Sound.node?_rest htrees hf hd hy)

end

/-- **A tree is moved into another one**: what is in it stays, and one of the other nodes has a
further child. -/
theorem Sound.move_keeps (hf : f.Sound) (hp : f.parent? x = none) {p : Place} (hin : p.Inside f)
    (hapart : ∀ n, f.node? x = some n → p.node ∉ n.ids) :
    (f.move x p).Sound ∧ f.Keeps (f.move x p) := by
  cases hx : f.node? x with
  | none =>
    rw [move, extract?, hx]
    exact ⟨hf, Keeps.refl f⟩
  | some n =>
    obtain ⟨t, ht, rfl⟩ := exists_top_of_parent? hx hp
    obtain ⟨before, after, htrees⟩ := List.append_of_mem ht
    obtain rfl : t.top.id = x := (mem_of_node? hx).2
    obtain ⟨q, m, k, hm, hel, hgraft⟩ :=
      (hin.rest htrees hf (hapart _ hx)).exists_graft_eq (Sound.rest htrees hf) t.top
    have hmove : f.move t.top.id p =
        (Forest.mk (before ++ after) f.next).grow q (Node.insertAt k t.top) f.next := by
      rw [move, Sound.extract?_top htrees hf]
      exact hgraft
    rw [hmove]
    exact Sound.graft_rest htrees hf hm hel k

/-! ## inserting a tree -/

/-- A change that leaves all nodes what they are -/
theorem keeps_of_tops {f' : Forest} (hf : f.Sound) (htops : f'.tops = f.tops)
    (hnext : f'.next = f.next) : f'.Sound ∧ f.Keeps f' := by
  have hnodes : f'.nodes = f.nodes := by rw [nodes_eq_tops, nodes_eq_tops, htops]
  refine ⟨⟨⟨?_, ?_⟩, ?_⟩, fun y m hm => ⟨m, ?_, Node.KeptIn.refl m⟩⟩
  · rw [ids, hnodes]
    exact hf.nodup
  · rw [ids, hnodes, hnext]
    exact hf.lt_next
  · rw [hnodes]
    exact hf.attributes
  · rw [node?, hnodes]
    exact hm

theorem tops_release (f : Forest) (x : NodeId) (document : Nat) :
    (f.release x document).tops = f.tops := by
  rw [tops, tops, release, List.map_map]
  refine List.map_congr_left fun t _ => ?_
  show (if t.top.id = x then _ else t : Tree).top = t.top
  split <;> rfl

theorem Sound.withoutTail_keeps (hf : f.Sound) (x : NodeId) :
    (f.update x (Node.withTail none)).Sound ∧ f.Keeps (f.update x (Node.withTail none)) := by
  have hgrow : f.update x (Node.withTail none) = f.grow x (Node.withTail none) f.next := rfl
  have hkept : ∀ n d : Node, d ∈ n.nodes → d ≠ n → d ∈ (n.withTail none).nodes := by
    intro n d hd hne
    rw [Node.nodes_eq, List.mem_cons] at hd
    rw [Node.nodes_eq, Node.children_withTail]
    exact List.mem_cons_of_mem _ (hd.resolve_left hne)
  have hsound : (f.grow x (Node.withTail none) f.next).Sound := by
    cases hx : f.node? x with
    | none =>
      rw [grow_of_not_mem (node?_eq_none_iff.1 hx)]
      exact hf
    | some m =>
      have hm : ∀ d ∈ m.nodes, Node.DistinctAttributes d.element? := fun d hd =>
        hf.attributes d ((nodes_sublist_of_mem (mem_of_node? hx).1).subset hd)
      have hids : (m.withTail none).ids.Perm ([] ++ m.ids) := by
        rw [Node.ids_withTail, List.nil_append]
      refine hf.grow hx hids List.nodup_nil (fun y hy => absurd hy (by simp)) (Nat.le_refl _)
        fun d hd => ?_
      rw [Node.nodes_eq, Node.children_withTail, List.mem_cons] at hd
      rcases hd with rfl | hd
      · rw [Node.element?_withTail]
        exact hm m m.self_mem_nodes
      · exact hm d ((Node.children_sublist_nodes m).subset hd)
  rw [hgrow]
  exact ⟨hsound, keeps_grow hf hsound (Node.id_withTail none) hkept fun n _ =>
    Node.keptIn_withTail none n⟩

/-- Among the siblings of a node that is not the topmost one there is a place inside. -/
theorem Sound.inside_of_refusal (hf : f.Sound) {p : Place} (hnode : p.node ∈ f.ids)
    (hrefusal : p.refusal? f = none)
    (htop : ∀ s t, p = .after s → f.tree? s = some t → t.top.id ≠ s) : p.Inside f := by
  refine ⟨hnode, fun y hy => ?_, fun s hs => ?_⟩
  · rcases hy with rfl | rfl <;> simpa [Place.refusal?] using hrefusal
  · subst hs
    rw [← Option.ne_none_iff_exists']
    intro hparent
    obtain ⟨m, hm⟩ := exists_node?_of_mem_ids hnode
    have hm' : f.node? s = some m := hm
    obtain ⟨u, hu, rfl⟩ := exists_top_of_parent? hm' hparent
    obtain rfl : u.top.id = s := (mem_of_node? hm').2
    exact htop _ u rfl (hf.tree?_of_mem hu u.top.id_mem_ids) rfl

/-- **A tree is inserted at a place**: all nodes keep what they were. -/
theorem Sound.insert_keeps (hf : f.Sound) (hparent : f.parent? x = none) {p : Place}
    (hnode : p.node ∈ f.ids) {f' : Forest} (h : f.insert x p = .ok f') :
    f'.Sound ∧ f.Keeps f' := by
  unfold Forest.insert at h
  cases hrefusal : p.refusal? f with
  | some r =>
    rw [hrefusal] at h
    cases r with
    | besideRoot =>
      dsimp only at h
      split at h
      · rw [← Except.ok.inj h]
        exact hf.withoutTail_keeps x
      · exact absurd h (by simp)
    | _ => exact absurd h (by simp)
  | none =>
    rw [hrefusal] at h
    dsimp only at h
    split at h
    · rw [← Except.ok.inj h]
      exact ⟨hf, Keeps.refl f⟩
    · split at h
      · exact absurd h (by simp)
      · next hbelow =>
        have hapart : ∀ n, f.node? x = some n → p.node ∉ n.ids := by
          intro n hx hmem
          obtain ⟨t, ht, rfl⟩ := exists_top_of_parent? hx hparent
          rw [← (mem_of_node? hx).2] at hbelow
          exact hbelow (hf.any_lineage_of_mem ht hmem)
        have hmove (htop : ∀ s t, p = .after s → f.tree? s = some t → t.top.id ≠ s) :
            (f.move x p).Sound ∧ f.Keeps (f.move x p) :=
          hf.move_keeps hparent (hf.inside_of_refusal hnode hrefusal htop) hapart
        split at h
        · next s t _ htree =>
          split at h
          · rw [← Except.ok.inj h]
            exact keeps_of_tops hf (tops_release f x t.document) rfl
          · next hne =>
            rw [← Except.ok.inj h]
            refine hmove fun s' t' hs ht => ?_
            obtain rfl := Place.after.inj hs
            obtain rfl : t = t' := Option.some.inj (htree.symm.trans ht)
            exact hne
        · next hother =>
          rw [← Except.ok.inj h]
          refine hmove fun s t hs ht => ?_
          subst hs
          exact absurd ht (hother s t rfl)

end Forest

end XmlPaths

import XmlPaths.Proofs.Tree.Nodes

/-!
# Changes of one node

A change of one node leaves all other nodes as they are, but for what those above it hold.

* `Node.update_of_not_mem`   a tree without the node stays the same;
* `Node.ids_update`          the identities that are added where the node is;
* `Node.update_update`       a change of the node, and then of one that it brought;
* `Forest.grow`              a forest with one node changed, and some identities used up;
* `Forest.Sound.ids_grow`    the identities that the changed node brings are added;
* `Forest.Sound.grow`, `Forest.node?_grow`   it is sound, and nodes above the change are found.
-/

namespace XmlPaths

theorem map_eq_self {α : Type} {f : α → α} {l : List α} (h : ∀ a ∈ l, f a = a) : l.map f = l := by
  rw [List.map_congr_left h, List.map_id']

namespace Node

theorem ids_element (i : NodeId) (e : Element) (cs : List Node) (t : Option String) :
    (element i e cs t).ids = i :: cs.flatMap ids := by
  rw [ids, nodes_element, List.map_cons, List.map_flatMap]
  rfl

theorem ids_leaf (i : NodeId) (l : Leaf) (t : Option String) : (leaf i l t).ids = [i] := by
  rw [ids, nodes_leaf]
  rfl

theorem id_mem_ids (n : Node) : n.id ∈ n.ids := List.mem_map_of_mem (self_mem_nodes n)

theorem ids_subset_of_mem {m n : Node} (h : m ∈ n.nodes) : m.ids ⊆ n.ids :=
  ((nodes_sublist_of_mem h).map id).subset

section
variable {x : NodeId} {g : Node → Node}

theorem update_self {n : Node} (h : n.id = x) : n.update x g = g n := by
  cases n with
  | element i e cs t => exact if_pos h
  | leaf i l t => exact if_pos h

theorem update_element {i : NodeId} (h : i ≠ x) (e : Element) (cs : List Node)
    (t : Option String) :
    (element i e cs t).update x g = element i e (cs.map (update x g)) t := by
  rw [update, if_neg h, updateAll_eq_map]

theorem update_leaf {i : NodeId} (h : i ≠ x) (l : Leaf) (t : Option String) :
    (leaf i l t).update x g = leaf i l t := by
  rw [update, if_neg h]

theorem update_of_not_mem {n : Node} (h : x ∉ n.ids) : n.update x g = n := by
  induction n using recursion with
  | leaf i l t =>
    rw [ids_leaf, List.mem_singleton] at h
    exact update_leaf (fun hi => h hi.symm) l t
  | element i e cs t ih =>
    rw [ids_element, List.mem_cons, not_or] at h
    have hcs : cs.map (update x g) = cs :=
      map_eq_self fun c hc => ih c hc fun hx => h.2 (List.mem_flatMap.2 ⟨c, hc, hx⟩)
    rw [update_element fun hi => h.1 hi.symm, hcs]

theorem id_update (hg : ∀ m : Node, m.id = x → (g m).id = x) (n : Node) :
    (n.update x g).id = n.id := by
  by_cases h : n.id = x
  · rw [update_self h, hg n h, h]
  · cases n with
    | element i e cs t =>
      have hi : i ≠ x := h
      rw [update_element hi]
      rfl
    | leaf i l t =>
      have hi : i ≠ x := h
      rw [update_leaf hi]

/-! ## one of several trees -/

/-- Of several trees with different identities one holds the node, and only that one changes. -/
theorem exists_split {cs : List Node} (hcs : (cs.flatMap ids).Nodup)
    (hx : x ∈ cs.flatMap ids) :
    ∃ before c after, cs = before ++ c :: after ∧ x ∈ c.ids ∧
      (∀ d ∈ cs, x ∈ d.ids → d = c) ∧ cs.map (update x g) = before ++ c.update x g :: after := by
  obtain ⟨c, hc, hxc⟩ := List.mem_flatMap.1 hx
  obtain ⟨before, after, rfl⟩ := List.append_of_mem hc
  rw [List.flatMap_append, List.flatMap_cons, List.nodup_append] at hcs
  obtain ⟨-, hrest, hbefore⟩ := hcs
  rw [List.nodup_append] at hrest
  obtain ⟨-, -, hafter⟩ := hrest
  have hbefore' : ∀ d ∈ before, x ∉ d.ids := fun d hd hxd =>
    hbefore x (List.mem_flatMap.2 ⟨d, hd, hxd⟩) x (List.mem_append_left _ hxc) rfl
  have hafter' : ∀ d ∈ after, x ∉ d.ids := fun d hd hxd =>
    hafter x hxc x (List.mem_flatMap.2 ⟨d, hd, hxd⟩) rfl
  refine ⟨before, c, after, rfl, hxc, fun d hd hxd => ?_, ?_⟩
  · rcases List.mem_append.1 hd with hd | hd
    · exact absurd hxd (hbefore' d hd)
    · rcases List.mem_cons.1 hd with hd | hd
      · exact hd
      · exact absurd hxd (hafter' d hd)
  · have hstay : ∀ {l : List Node}, (∀ d ∈ l, x ∉ d.ids) → l.map (update x g) = l :=
      fun hl => map_eq_self fun d hd => update_of_not_mem (hl d hd)
    rw [List.map_append, List.map_cons, hstay hbefore', hstay hafter']

theorem nodup_ids_of_mem {cs : List Node} (hcs : (cs.flatMap ids).Nodup) {c : Node}
    (hc : c ∈ cs) : c.ids.Nodup := (List.nodup_flatMap.1 hcs).1 c hc

theorem ids_map_update {extra : List NodeId} {cs : List Node} (hcs : (cs.flatMap ids).Nodup)
    (hx : x ∈ cs.flatMap ids)
    (h : ∀ c ∈ cs, x ∈ c.ids → (c.update x g).ids.Perm (extra ++ c.ids)) :
    ((cs.map (update x g)).flatMap ids).Perm (extra ++ cs.flatMap ids) := by
  obtain ⟨before, c, after, rfl, hxc, -, hmap⟩ := exists_split (g := g) hcs hx
  have hc := h c (by simp) hxc
  rw [hmap, List.flatMap_append, List.flatMap_append, List.flatMap_cons, List.flatMap_cons]
  have hperm : (before.flatMap ids ++ ((c.update x g).ids ++ after.flatMap ids)).Perm
      (before.flatMap ids ++ (extra ++ c.ids ++ after.flatMap ids)) :=
    (hc.append_right _).append_left _
  refine hperm.trans ?_
  rw [List.append_assoc, ← List.append_assoc, ← List.append_assoc extra]
  exact (List.perm_append_comm.append_right _)

/-- The identities that the changed node brings are added to those of the tree. -/
theorem ids_update {extra : List NodeId} {n : Node} (hn : n.ids.Nodup) (hx : x ∈ n.ids)
    (h : ∀ m ∈ n.nodes, m.id = x → (g m).ids.Perm (extra ++ m.ids)) :
    (n.update x g).ids.Perm (extra ++ n.ids) := by
  induction n using recursion with
  | leaf i l t =>
    rw [ids_leaf, List.mem_singleton] at hx
    have hi : (leaf i l t).id = x := hx.symm
    rw [update_self hi]
    exact h _ (self_mem_nodes _) hi
  | element i e cs t ih =>
    by_cases hi : (element i e cs t).id = x
    · rw [update_self hi]
      exact h _ (self_mem_nodes _) hi
    · rw [ids_element, List.mem_cons] at hx
      rw [ids_element, List.nodup_cons] at hn
      have hx' : x ∈ cs.flatMap ids := hx.resolve_left fun h => hi h.symm
      have hcs := ids_map_update hn.2 hx' fun c hc hxc =>
        ih c hc (nodup_ids_of_mem hn.2 hc) hxc fun m hm =>
          h m (by
            rw [nodes_element]
            exact List.mem_cons_of_mem _ (List.mem_flatMap.2 ⟨c, hc, hm⟩))
      rw [update_element (show i ≠ x from hi), ids_element, ids_element]
      exact (hcs.cons i).trans List.perm_middle.symm

theorem mem_nodes_update {m n : Node} (hn : n.ids.Nodup) (hm : m ∈ n.nodes) (hx : x ∈ m.ids) :
    m.update x g ∈ (n.update x g).nodes := by
  induction n using recursion with
  | leaf i l t =>
    rw [nodes_leaf, List.mem_singleton] at hm
    rw [hm]
    exact self_mem_nodes _
  | element i e cs t ih =>
    rw [nodes_element, List.mem_cons, List.mem_flatMap] at hm
    rcases hm with rfl | ⟨c, hc, hm⟩
    · exact self_mem_nodes _
    · rw [ids_element, List.nodup_cons] at hn
      have hi : i ≠ x := by
        rintro rfl
        exact hn.1 (List.mem_flatMap.2 ⟨c, hc, ids_subset_of_mem hm hx⟩)
      have hmem := ih c hc (nodup_ids_of_mem hn.2 hc) hm
      rw [update_element hi, nodes_element]
      exact List.mem_cons_of_mem _ (List.mem_flatMap.2 ⟨_, List.mem_map_of_mem hc, hmem⟩)

/-- no two attributes of the element have one name, if there is an element -/
def DistinctAttributes (e? : Option Element) : Prop :=
  ∀ e ∈ e?, (e.attributes.map Attribute.name).Nodup

theorem forall_nodes_element {P : Option Element → Prop} {i : NodeId} {e : Element}
    {cs : List Node} {t : Option String} :
    (∀ m ∈ (element i e cs t).nodes, P m.element?) ↔
      P (some e) ∧ ∀ c ∈ cs, ∀ m ∈ c.nodes, P m.element? := by
  rw [nodes_element]
  constructor
  · intro h
    refine ⟨h _ List.mem_cons_self, fun c hc m hm => ?_⟩
    exact h m (List.mem_cons_of_mem _ (List.mem_flatMap.2 ⟨c, hc, hm⟩))
  · intro ⟨he, hcs⟩ m hm
    rcases List.mem_cons.1 hm with rfl | hm
    · exact he
    · obtain ⟨c, hc, hm⟩ := List.mem_flatMap.1 hm
      exact hcs c hc m hm

/-- What holds of all elements still holds if it holds of what the changed node brings. -/
theorem forall_update {P : Option Element → Prop} {n : Node}
    (hg : ∀ m ∈ n.nodes, m.id = x → ∀ m' ∈ (g m).nodes, P m'.element?)
    (hn : ∀ m ∈ n.nodes, P m.element?) : ∀ m ∈ (n.update x g).nodes, P m.element? := by
  induction n using recursion with
  | leaf i l t =>
    by_cases hi : (leaf i l t).id = x
    · rw [update_self hi]
      exact hg _ (self_mem_nodes _) hi
    · rw [update_leaf (show i ≠ x from hi)]
      exact hn
  | element i e cs t ih =>
    by_cases hi : (element i e cs t).id = x
    · rw [update_self hi]
      exact hg _ (self_mem_nodes _) hi
    · rw [update_element (show i ≠ x from hi), forall_nodes_element]
      rw [forall_nodes_element] at hn
      refine ⟨hn.1, fun c' hc' => ?_⟩
      obtain ⟨c, hc, rfl⟩ := List.mem_map.1 hc'
      refine ih c hc (fun m hm => hg m ?_) (hn.2 c hc)
      rw [nodes_element]
      exact List.mem_cons_of_mem _ (List.mem_flatMap.2 ⟨c, hc, hm⟩)

theorem update_congr {g' : Node → Node} {n : Node}
    (h : ∀ m ∈ n.nodes, m.id = x → g m = g' m) : n.update x g = n.update x g' := by
  induction n using recursion with
  | leaf i l t =>
    by_cases hi : (leaf i l t).id = x
    · rw [update_self hi, update_self hi]
      exact h _ (self_mem_nodes _) hi
    · have hi' : i ≠ x := hi
      rw [update_leaf hi', update_leaf hi']
  | element i e cs t ih =>
    by_cases hi : (element i e cs t).id = x
    · rw [update_self hi, update_self hi]
      exact h _ (self_mem_nodes _) hi
    · have hi' : i ≠ x := hi
      have hcs : cs.map (update x g) = cs.map (update x g') := by
        refine List.map_congr_left fun c hc => ih c hc fun m hm => h m ?_
        rw [nodes_element]
        exact List.mem_cons_of_mem _ (List.mem_flatMap.2 ⟨c, hc, hm⟩)
      rw [update_element hi', update_element hi', hcs]

theorem update_id (n : Node) : n.update x (fun m => m) = n := by
  induction n using recursion with
  | leaf i l t => rw [update, ite_self]
  | element i e cs t ih =>
    have hcs : cs.map (update x fun m => m) = cs := map_eq_self ih
    rw [update, updateAll_eq_map, hcs, ite_self]

/-- a change of the node, and then of one that was not in the tree before -/
theorem update_update {y : NodeId} {g' h : Node → Node} {n : Node} (hy : y ∉ n.ids)
    (hg : ∀ m ∈ n.nodes, m.id = x → (g m).update y h = g' m) :
    (n.update x g).update y h = n.update x g' := by
  induction n using recursion with
  | leaf i l t =>
    by_cases hi : (leaf i l t).id = x
    · rw [update_self hi, update_self hi]
      exact hg _ (self_mem_nodes _) hi
    · have hi' : i ≠ x := hi
      rw [update_leaf hi', update_leaf hi', update_of_not_mem hy]
  | element i e cs t ih =>
    by_cases hi : (element i e cs t).id = x
    · rw [update_self hi, update_self hi]
      exact hg _ (self_mem_nodes _) hi
    · rw [ids_element, List.mem_cons, not_or] at hy
      have hi' : i ≠ x := hi
      have hcs : (cs.map (update x g)).map (update y h) = cs.map (update x g') := by
        rw [List.map_map]
        refine List.map_congr_left fun c hc => ?_
        refine ih c hc (fun hyc => hy.2 (List.mem_flatMap.2 ⟨c, hc, hyc⟩)) fun m hm => hg m ?_
        rw [nodes_element]
        exact List.mem_cons_of_mem _ (List.mem_flatMap.2 ⟨c, hc, hm⟩)
      rw [update_element hi', update_element hi', update_element (fun h => hy.1 h.symm), hcs]

end

end Node

/-! ## forests -/

namespace Forest

def tops (f : Forest) : List Node := f.trees.map Tree.top

theorem nodes_eq_tops (f : Forest) : f.nodes = f.tops.flatMap Node.nodes := by
  rw [nodes, tops, List.flatMap_map]

theorem ids_eq_tops (f : Forest) : f.ids = f.tops.flatMap Node.ids := by
  rw [ids, nodes_eq_tops, List.map_flatMap]
  rfl

/-- a forest with one node changed, and the identities below `next` used up -/
def grow (f : Forest) (x : NodeId) (g : Node → Node) (next : NodeId) : Forest :=
  { f.update x g with next := next }

section
variable {f : Forest} {x : NodeId} {g : Node → Node} {next : NodeId}

theorem tops_grow : (f.grow x g next).tops = f.tops.map (Node.update x g) := by
  rw [tops, tops, grow, update, List.map_map, List.map_map]
  rfl

theorem next_grow : (f.grow x g next).next = next := rfl

/-- a change, and then one of a node that the first one brought -/
theorem grow_grow {y : NodeId} {g' h : Node → Node} (next next' : NodeId) (hy : y ∉ f.ids)
    (hg : ∀ m ∈ f.nodes, m.id = x → (g m).update y h = g' m) :
    (f.grow x g next).grow y h next' = f.grow x g' next' := by
  have htrees : ((f.grow x g next).grow y h next').trees = (f.grow x g' next').trees := by
    show (f.trees.map _).map _ = f.trees.map _
    rw [List.map_map]
    refine List.map_congr_left fun t ht => ?_
    have hnodes : ∀ m ∈ t.top.nodes, m ∈ f.nodes := fun m hm =>
      List.mem_flatMap.2 ⟨t, ht, hm⟩
    have hy' : y ∉ t.top.ids := fun hyt => by
      obtain ⟨m, hm, rfl⟩ := List.mem_map.1 hyt
      exact hy (List.mem_map_of_mem (hnodes m hm))
    have htop := Node.update_update (h := h) hy' fun m hm => hg m (hnodes m hm)
    show ({ t with top := (t.top.update x g).update y h } : Tree) = _
    rw [htop]
  exact congrArg (Forest.mk · next') htrees

/-- Only what becomes of the one node counts. -/
theorem grow_congr (hf : f.Sound) {n : Node} (hx : f.node? x = some n) {g' : Node → Node}
    (h : g n = g' n) : f.grow x g next = f.grow x g' next := by
  obtain ⟨hmem, hid⟩ := mem_of_node? hx
  have htrees : (f.grow x g next).trees = (f.grow x g' next).trees := by
    show f.trees.map _ = f.trees.map _
    refine List.map_congr_left fun t ht => ?_
    have htop : t.top.update x g = t.top.update x g' := by
      refine Node.update_congr fun m hm hmx => ?_
      rw [hf.eq_of_id (List.mem_flatMap.2 ⟨t, ht, hm⟩) hmem (hmx.trans hid.symm)]
      exact h
    rw [htop]
  exact congrArg (Forest.mk · next) htrees

theorem grow_eq_self (hf : f.Sound) {n : Node} (hx : f.node? x = some n) (h : g n = n) :
    f.grow x g f.next = f := by
  have htrees : f.trees.map (fun t => { t with top := t.top.update x fun m => m }) = f.trees :=
    map_eq_self fun t _ => by rw [Node.update_id]
  have hsame : f.grow x g f.next = f.grow x (fun m => m) f.next := grow_congr hf hx h
  rw [hsame]
  exact congrArg (Forest.mk · f.next) htrees

theorem mem_ids_of_node? {n : Node} (hn : f.node? x = some n) : x ∈ f.ids := by
  obtain ⟨hmem, rfl⟩ := mem_of_node? hn
  exact List.mem_map_of_mem hmem

/-- The identities that the changed node brings are added to those of the forest. -/
theorem Sound.ids_grow (hf : f.Sound) {n : Node} (hn : f.node? x = some n) {extra : List NodeId}
    (hids : (g n).ids.Perm (extra ++ n.ids)) : (f.grow x g next).ids.Perm (extra ++ f.ids) := by
  obtain ⟨hmem, hid⟩ := mem_of_node? hn
  have hnodup := hf.nodup
  have hx := mem_ids_of_node? hn
  rw [ids_eq_tops] at hnodup hx
  rw [ids_eq_tops, ids_eq_tops, tops_grow]
  refine Node.ids_map_update hnodup hx fun c hc hxc =>
    Node.ids_update (Node.nodup_ids_of_mem hnodup hc) hxc fun m hm hmx => ?_
  have hmem' : m ∈ f.nodes := by
    rw [nodes_eq_tops]
    exact List.mem_flatMap.2 ⟨c, hc, hm⟩
  rw [hf.eq_of_id hmem' hmem (hmx.trans hid.symm)]
  exact hids

/-- A forest stays sound if the changed node brings identities that no other node bears. -/
theorem Sound.grow_of_apart (hf : f.Sound) {n : Node} (hn : f.node? x = some n)
    {extra : List NodeId} (hids : (g n).ids.Perm (extra ++ n.ids)) (hextra : extra.Nodup)
    (hapart : ∀ y ∈ extra, y ∉ f.ids) (hlt : ∀ y ∈ extra, y < next) (hnext : f.next ≤ next)
    (hattributes : ∀ m ∈ (g n).nodes, Node.DistinctAttributes m.element?) :
    (f.grow x g next).Sound := by
  obtain ⟨hmem, hid⟩ := mem_of_node? hn
  have hperm : (f.grow x g next).ids.Perm (extra ++ f.ids) := hf.ids_grow hn hids
  refine ⟨⟨?_, ?_⟩, ?_⟩
  · rw [hperm.nodup_iff, List.nodup_append]
    exact ⟨hextra, hf.nodup, fun y hy z hz hyz => hapart y hy (hyz ▸ hz)⟩
  · intro y hy
    rw [next_grow]
    rcases List.mem_append.1 (hperm.mem_iff.1 hy) with hy | hy
    · exact hlt y hy
    · exact Nat.lt_of_lt_of_le (hf.lt_next y hy) hnext
  · have hsub : ∀ c ∈ f.tops, ∀ m ∈ c.nodes, m ∈ f.nodes := by
      intro c hc m hm
      rw [nodes_eq_tops]
      exact List.mem_flatMap.2 ⟨c, hc, hm⟩
    rw [nodes_eq_tops, tops_grow]
    intro m hm
    obtain ⟨c', hc', hm⟩ := List.mem_flatMap.1 hm
    obtain ⟨c, hc, rfl⟩ := List.mem_map.1 hc'
    refine Node.forall_update (P := Node.DistinctAttributes) (fun m hm hmx => ?_)
       (fun m hm => hf.attributes m (hsub c hc m hm)) m hm
    rw [hf.eq_of_id (hsub c hc m hm) hmem (hmx.trans hid.symm)]
    exact hattributes

theorem Sound.grow (hf : f.Sound) {n : Node} (hn : f.node? x = some n) {extra : List NodeId}
    (hids : (g n).ids.Perm (extra ++ n.ids)) (hextra : extra.Nodup)
    (hfresh : ∀ y ∈ extra, f.next ≤ y ∧ y < next) (hnext : f.next ≤ next)
    (hattributes : ∀ m ∈ (g n).nodes, Node.DistinctAttributes m.element?) :
    (f.grow x g next).Sound :=
  hf.grow_of_apart hn hids hextra
    (fun y hy hmem => absurd (hf.lt_next y hmem) (Nat.not_lt_of_le (hfresh y hy).1))
    (fun y hy => (hfresh y hy).2) hnext hattributes

/-- The nodes above the changed one are found, and those they hold are changed. -/
theorem node?_grow (hf : f.Sound) (hgrow : (f.grow x g next).Sound) {root : NodeId} {m : Node}
    (hm : f.node? root = some m) (hx : x ∈ m.ids) (hid : ∀ n : Node, n.id = x → (g n).id = x) :
    (f.grow x g next).node? root = some (m.update x g) := by
  obtain ⟨hmem, rfl⟩ := mem_of_node? hm
  have hnodup := hf.nodup
  rw [ids_eq_tops] at hnodup
  rw [nodes_eq_tops] at hmem
  obtain ⟨c, hc, hmc⟩ := List.mem_flatMap.1 hmem
  have hmem' : m.update x g ∈ (f.grow x g next).nodes := by
    rw [nodes_eq_tops, tops_grow]
    exact List.mem_flatMap.2 ⟨_, List.mem_map_of_mem hc,
      Node.mem_nodes_update (Node.nodup_ids_of_mem hnodup hc) hmc hx⟩
  have hfound := hgrow.node?_of_mem hmem'
  rwa [Node.id_update hid] at hfound

end

end Forest

end XmlPaths

import XmlPaths.Proofs.Build.Moving
import XmlPaths.Proofs.Build.Siblings
import XmlPaths.Proofs.Selection.Agreement

/-!
# Insertion behind named siblings

A node without parent is put among the children of another node, at the place that names tell.  The
tree that it was the topmost node of is gone then; of the other nodes none but its new parent
changes, and that one only in having a further child.

* `Node.subset_of_lineage?`, `Forest.Sound.any_lineage_of_not_mem`   what is above a node lies in
  the tree of the node;
* `Forest.Sound.insert_of_in`   a tree is inserted among the children of a node of another one;
* `insertBehind_of_denoted`     the place among them is the one that the names tell.
-/

namespace XmlPaths

/-! ## what is above a node -/

theorem Node.subset_of_lineage? {x : NodeId} {n : Node} {l : List Node}
    (h : n.lineage? x = some l) : l ⊆ n.nodes := by
  induction n using recursion generalizing l with
  | leaf i l' t =>
    rw [lineage?] at h
    split at h
    · rw [← Option.some.inj h, nodes_leaf]
      exact List.Subset.refl _
    · exact absurd h (by simp)
  | element i e cs t ih =>
    rw [lineage?] at h
    rw [nodes_element]
    split at h
    · rw [← Option.some.inj h]
      exact List.cons_subset_cons _ (List.nil_subset _)
    · rw [lineageInAll?_eq] at h
      obtain ⟨l', hl', rfl⟩ := Option.map_eq_some_iff.1 h
      obtain ⟨c, hc, hl'⟩ := List.exists_of_findSome?_eq_some hl'
      refine List.append_subset.2 ⟨fun m hm => ?_, by simp⟩
      exact List.mem_cons_of_mem _ (List.mem_flatMap.2 ⟨c, hc, ih c hc hl' hm⟩)

namespace Forest

variable {f : Forest} {before after : List Tree} {t : Tree}
  (htrees : f.trees = before ++ t :: after)
include htrees

theorem mem_trees_rest {s : Tree} (hs : s ∈ f.trees) {y : NodeId} (hy : y ∈ s.top.ids)
    (hyt : y ∉ t.top.ids) : s ∈ before ++ after := by
  rw [htrees, List.mem_append, List.mem_cons] at hs
  rw [List.mem_append]
  refine hs.imp_right fun hs => hs.resolve_left ?_
  rintro rfl
  exact hyt hy

variable (hf : f.Sound)
include hf

/-- What is above a node outside of a tree isn't the topmost node of that tree. -/
theorem Sound.any_lineage_of_not_mem {y : NodeId} (hy : y ∉ t.top.ids) :
    (f.lineage y).any (·.id == t.top.id) = false := by
  rw [List.any_eq_false]
  intro m hm hid
  rw [lineage] at hm
  cases hl : f.trees.findSome? (·.top.lineage? y) with
  | none =>
    rw [hl] at hm
    exact absurd hm (by simp)
  | some l =>
    rw [hl, Option.getD_some] at hm
    obtain ⟨s, hs, hls⟩ := List.exists_of_findSome?_eq_some hl
    have hrest := mem_trees_rest htrees hs (Node.mem_of_lineage? hls).1 hy
    have hmem : m.id ∈ s.top.ids := List.mem_map_of_mem (Node.subset_of_lineage? hls hm)
    rw [eq_of_beq hid] at hmem
    exact hf.tree_unique htrees t.top.id_mem_ids hrest hmem

variable {x : NodeId} {n : Node} (hx : f.node? x = some n) (hapart : x ∉ t.top.ids)
include hx hapart

/-- The children of a node outside of a tree are outside of it. -/
theorem Sound.node_not_mem {k : Nat} {p : Place} (hp : p.In n k) : p.node ∉ t.top.ids := by
  obtain ⟨hmem, rfl⟩ := mem_of_node? hx
  cases hp with
  | first => exact hapart
  | @after front back c hchildren =>
    obtain ⟨s, hs, hns⟩ := List.mem_flatMap.1 hmem
    have hrest := mem_trees_rest htrees hs (List.mem_map_of_mem hns) hapart
    have hc : c ∈ n.children := hchildren ▸ List.mem_append_right _ List.mem_cons_self
    have hcs : c.id ∈ s.top.ids :=
      Node.ids_subset_of_mem hns (List.mem_map_of_mem (Node.mem_nodes_of_mem_children hc))
    exact fun hct => hf.tree_unique htrees hct hrest hcs

variable (hn : n.isElement = true)
include hn

theorem Sound.move_of_in {k : Nat} {p : Place} (hp : p.In n k) :
    f.move t.top.id p =
      (Forest.mk (before ++ after) f.next).update x (Node.insertAt k t.top) := by
  have hrest := Sound.node?_rest htrees hf hx hapart
  have hamong := hp.among (Sound.rest htrees hf) hrest hn
  rw [move, Sound.extract?_top htrees hf]
  exact graft_eq_grow (hamong.put t.top)

/-- **A tree is inserted among the children of a node** of another tree. -/
theorem Sound.insert_of_in {k : Nat} {p : Place} (hp : p.In n k) :
    f.insert t.top.id p =
      .ok ((Forest.mk (before ++ after) f.next).update x (Node.insertAt k t.top)) := by
  have hnode := Sound.node_not_mem htrees hf hx hapart hp
  have habove := Sound.any_lineage_of_not_mem htrees hf hnode
  have hmove := Sound.move_of_in htrees hf hx hapart hn hp
  have hat : p.isAt t.top.id = false := by
    cases hp with
    | first => rfl
    | @after _ _ c _ =>
      rw [Place.isAt, beq_eq_false_iff_ne]
      exact fun hid => hnode (show c.id ∈ t.top.ids from hid ▸ t.top.id_mem_ids)
  unfold Forest.insert
  rw [(hp.among hf hx hn).free]
  dsimp only
  rw [hat, habove, if_neg (by simp), if_neg (by simp)]
  split
  · next s u htree =>
    -- a child isn't at the top of its tree
    have hne : u.top.id ≠ s := by
      cases hp with
      | @after _ _ c hchildren =>
        have hparent := hf.parent?_of_mem_children (mem_of_node? hx).1 (c := c)
          (hchildren ▸ List.mem_append_right _ List.mem_cons_self)
        intro hid
        rw [← hid, hf.parent?_top (List.mem_of_find?_eq_some htree)] at hparent
        exact absurd hparent (by simp)
    rw [if_neg hne, hmove]
  · rw [hmove]

end Forest

/-! ## the place that names tell -/

theorem placeBehind_of_refusal {f : Forest} {parent : NodeId} {ns : Namespaces} {r : Refusal}
    (h : ns.refusal? = some r) {names : List String} (hnames : names ≠ []) :
    placeBehind f parent names ns = .error (.refused r) := by
  obtain ⟨name, rest, hreverse⟩ :=
    List.exists_cons_of_ne_nil fun h => hnames (List.reverse_eq_nil_iff.1 h)
  rw [placeBehind, hreverse, placeByPriority, selectFrom_of_refusal h]

theorem insertBehind_of_refusal {f : Forest} {parent child : NodeId}
    (htop : f.parent? child = none) {ns : Namespaces} {r : Refusal} (h : ns.refusal? = some r)
    {names : List String} (hnames : names ≠ []) :
    insertBehind f parent child names ns = .error (.refused r) := by
  rw [insertBehind, htop]
  dsimp only
  rw [placeBehind_of_refusal h hnames]

/-- **A node without parent is put behind the children that names tell.**  The parent, an element
`e` with the children `cs`, isn't below the node `c`, and the names are those of elements.  Then the
parent keeps its text, attributes and tail, and its children are those that it had, with `c` among
them as it was; `c` is behind the last child that bears the last one of the names that any child
bears, or in front of all children.  The tree of which `c` was the topmost node is gone, and nothing
else is changed.

Where there are names at all and a binding is unfit for evaluation, it is refused. -/
theorem insertBehind_of_denoted {f : Forest} (hf : f.Sound) {parent child : NodeId} {e : Element}
    {cs : List Node} {tail : Option String} {c : Node}
    (hparent : f.node? parent = some (.element parent e cs tail))
    (hchild : f.node? child = some c) (htop : f.parent? child = none) (hapart : parent ∉ c.ids)
    {names : List String} {ns : Namespaces} (hnames : ∀ name ∈ names, ∃ m, ns.Denotes name m) :
    (names = [] ∨ ns.refusal? = none → ∃ k f', insertBehind f parent child names ns = .ok f' ∧
      (Node.element parent e cs tail).Behind ns names k ∧
      f'.node? parent = some (.element parent e (cs.take k ++ c :: cs.drop k) tail) ∧
      ∃ before t after, f.trees = before ++ t :: after ∧ t.top = c ∧
        f' = (Forest.mk (before ++ after) f.next).update parent (Node.insertAt k c)) ∧
    ∀ r, ns.refusal? = some r → names ≠ [] →
      insertBehind f parent child names ns = .error (.refused r) := by
  refine ⟨fun hns => ?_, fun r hr hne => insertBehind_of_refusal htop hr hne⟩
  obtain ⟨t, ht, rfl⟩ := Forest.exists_top_of_parent? hchild htop
  obtain ⟨before, after, htrees⟩ := List.append_of_mem ht
  obtain rfl : t.top.id = child := (Forest.mem_of_node? hchild).2
  obtain ⟨p, k, hp, hin, hbehind⟩ := exists_in_placeBehind hf hparent hns hnames
  have hinsert := Forest.Sound.insert_of_in htrees hf hparent hapart rfl hin
  have hrest := Forest.Sound.node?_rest htrees hf hparent hapart
  have hsound := (Forest.Sound.graft_rest htrees hf hrest rfl k).1
  have hfound := Forest.node?_grow_of_keeps hsound (Forest.Sound.rest htrees hf) hrest
    (fun d => Node.id_insertAt k t.top d) fun _ _ => Node.nodes_insertAt_subset
  have hid : (Node.element parent e cs tail).id = parent := rfl
  rw [Node.update_self hid] at hfound
  refine ⟨k, _, ?_, hbehind, hfound, before, t, after, htrees, rfl, rfl⟩
  rw [insertBehind, htop]
  dsimp only
  rw [hp]
  dsimp only
  rw [hinsert]
  rfl

/-- children of alternating names, with a comment and texts between them -/
def mixedChildren : List Node :=
  [.element 1 ⟨⟨some "u", "and"⟩, [], none⟩ [] none,
    .element 2 ⟨⟨none, "or"⟩, [], none⟩ [] (some "tail"),
    .element 3 ⟨⟨some "u", "and"⟩, [], none⟩ [] (some " "),
    .leaf 4 (.comment "comment") (some "tail"),
    .element 5 ⟨⟨none, "or"⟩, [], none⟩ [] none]

/-- a document, and an element with a tail that was detached from it -/
def mixedNames : Forest :=
  ⟨[⟨0, true, .element 0 ⟨⟨none, "div"⟩, [⟨⟨none, "a"⟩, "1"⟩], some "text"⟩ mixedChildren none⟩,
    ⟨0, false, .element 6 ⟨⟨none, "mod"⟩, [], none⟩ [.leaf 7 (.comment "") none] (some "own")⟩], 8⟩

theorem sound_mixedNames : mixedNames.Sound where
  nodup := by decide
  lt_next := by decide
  attributes := by decide

/-- The last name that a child bears is that of the third child, whose tail stays in front of the
new one. -/
theorem insertBehind_of_denoted_mixedNames : ∃ f',
    insertBehind mixedNames 0 6 ["or", "p:and", "div"] [("p", "u")] = .ok f' ∧
    f'.node? 0 = some (.element 0 ⟨⟨none, "div"⟩, [⟨⟨none, "a"⟩, "1"⟩], some "text"⟩
      (mixedChildren.take 3 ++ .element 6 ⟨⟨none, "mod"⟩, [], none⟩ [.leaf 7 (.comment "") none]
        (some "own") :: mixedChildren.drop 3) none) := by
  have hor : Namespaces.Denotes [("p", "u")] "or" ⟨none, "or"⟩ := .bare (by decide)
  have hand : Namespaces.Denotes [("p", "u")] "p:and" ⟨some "u", "and"⟩ :=
    .qualified (p := "p") (l := "and") (by decide) (by decide) rfl
  have hdiv : Namespaces.Denotes [("p", "u")] "div" ⟨none, "div"⟩ := .bare (by decide)
  have hnames : ∀ name ∈ ["or", "p:and", "div"], ∃ m, Namespaces.Denotes [("p", "u")] name m :=
    List.forall_mem_cons.2 ⟨⟨_, hor⟩, List.forall_mem_cons.2 ⟨⟨_, hand⟩,
      List.forall_mem_singleton.2 ⟨_, hdiv⟩⟩⟩
  obtain ⟨k, f', hinsert, hbehind, hparent, -⟩ :=
    (@insertBehind_of_denoted mixedNames sound_mixedNames 0 6 _ _ _ _ rfl rfl rfl (by decide)
      _ _ hnames).1 (.inr rfl)
  have hthird : (Node.element 0 ⟨⟨none, "div"⟩, [⟨⟨none, "a"⟩, "1"⟩], some "text"⟩ mixedChildren
      none).Behind [("p", "u")] (["or"] ++ "p:and" :: ["div"]) 3 := by
    refine @Node.Behind.last _ _ _ _ _ (mixedChildren.take 2) _ _ rfl (hand.bears_iff.2 rfl) ?_ ?_
    · simp only [hand.bears_iff]
      decide
    · rw [List.forall_mem_singleton]
      simp only [hdiv.bears_iff]
      decide
  obtain rfl := hbehind.unique hthird
  exact ⟨f', hinsert, hparent⟩

/-- A prefix that is bound to a character that no document can contain is refused. -/
theorem not_insertBehind_of_bound : ¬ ∀ (f : Forest) (parent child : NodeId) (e : Element)
    (cs : List Node) (tail : Option String) (c : Node) (names : List String) (ns : Namespaces),
    f.Sound → f.node? parent = some (.element parent e cs tail) → f.node? child = some c →
    f.parent? child = none → parent ∉ c.ids → (∀ name ∈ names, ∃ m, ns.Denotes name m) →
    ∃ f', insertBehind f parent child names ns = .ok f' := by
  intro h
  have hname : Namespaces.Denotes [("p", "\x01")] "p:a" ⟨some "\x01", "a"⟩ :=
    .qualified (p := "p") (l := "a") (by decide) (by decide) rfl
  obtain ⟨f', hf'⟩ := h mixedNames 0 6 _ _ _ _ ["p:a"] [("p", "\x01")] sound_mixedNames rfl rfl rfl
    (by decide) (List.forall_mem_singleton.2 ⟨_, hname⟩)
  have hrefused : Namespaces.refusal? [("p", "\x01")] = some .illegalText := by decide
  rw [insertBehind_of_refusal rfl hrefused (by simp)] at hf'
  exact absurd hf' (by simp)

end XmlPaths

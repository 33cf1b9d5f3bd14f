import XmlPaths.Proofs.Build.Growth
import XmlPaths.Proofs.Selection.Reach

/-!
# Changes below what was reached

Steps lead down one level each, so that what happens at some level can't make longer steps lead
elsewhere above it.  If steps lead nowhere and one node below the level of all but the last one is
changed, they lead nowhere still, or to what the change brought and to nothing else.

* `Node.within`            the identities on the uppermost levels;
* `Node.walk_update_or`    where steps lead after a change below;
* `Node.walk_insertAt`     where they lead when a child is inserted;
* `Node.walk_insert`, `Node.walk_addAttribute`   the same for what is made in one turn.
-/

namespace XmlPaths.Node

/-- the identities on the first `k` levels, the node's own one being the first -/
def within : Nat → Node → List NodeId
  | 0, _ => []
  | k + 1, n => n.id :: n.children.flatMap (within k)

theorem within_subset (k : Nat) (n : Node) : n.within k ⊆ n.ids := by
  induction k generalizing n with
  | zero => exact List.nil_subset _
  | succ k ih =>
    intro x hx
    rw [ids, nodes_eq, List.map_cons, List.map_flatMap]
    rcases List.mem_cons.1 hx with rfl | hx
    · exact List.mem_cons_self
    · obtain ⟨c, hc, hx⟩ := List.mem_flatMap.1 hx
      exact List.mem_cons_of_mem _ (List.mem_flatMap.2 ⟨c, hc, ih c hx⟩)

section
variable {x : NodeId} {g : Node → Node} (hid : ∀ m : Node, (g m).id = m.id)
include hid

/-- A change below the first `k` levels shows no new identities before it is two levels down. -/
theorem within_update {k : Nat} {n : Node} (hx : x ∉ n.within k) :
    (n.update x g).within (k + 1) = n.within (k + 1) := by
  have hself : ∀ n : Node, (n.update x g).id = n.id := id_update fun m hm => (hid m).trans hm
  induction k generalizing n with
  | zero =>
    rw [within, within, hself]
    simp only [within, List.flatMap_eq_nil_iff.2 fun _ _ => rfl]
  | succ k ih =>
    cases n with
    | leaf j l t =>
      have hj : j ≠ x := fun hj => hx (hj ▸ List.mem_cons_self)
      rw [update_leaf hj]
    | element j e cs t =>
      rw [within, List.mem_cons, not_or] at hx
      have hj : j ≠ x := fun hj => hx.1 hj.symm
      rw [update_element hj]
      show j :: (cs.map (update x g)).flatMap (within (k + 1)) = j :: cs.flatMap (within (k + 1))
      rw [List.flatMap_map]
      refine congrArg (j :: ·) (List.flatMap_congr fun c hc => ih fun hxc => ?_)
      exact hx.2 (List.mem_flatMap.2 ⟨c, hc, hxc⟩)

end

/-- What steps reach is below as many levels as there are steps. -/
theorem not_mem_within_of_mem_reach (ns : Namespaces) {pre : List Step} {m n : Node}
    (hn : n.ids.Nodup) (hm : m ∈ n.reach ns pre) : m.id ∉ n.within pre.length := by
  induction pre generalizing n with
  | nil => exact List.not_mem_nil
  | cons s pre ih =>
    cases s with
    | «attribute» a => exact absurd hm (by simp [reach])
    | element s =>
      rw [reach, List.mem_flatMap] at hm
      obtain ⟨c, hc, hm⟩ := hm
      have hchild := (List.mem_filter.1 hc).1
      have hmc : m.id ∈ c.ids := List.mem_map_of_mem (mem_nodes_of_mem_reach ns hm)
      rw [ids, nodes_eq, List.map_cons, List.map_flatMap, List.nodup_cons] at hn
      have hchildren : (n.children.flatMap ids).Nodup := hn.2
      rw [List.length_cons, within, List.mem_cons, not_or]
      constructor
      · intro heq
        refine hn.1 (heq ▸ List.mem_flatMap.2 ⟨c, hchild, hmc⟩)
      · intro hmem
        obtain ⟨d, hd, hmd⟩ := List.mem_flatMap.1 hmem
        have hsame : d = c := by
          obtain ⟨before, c', after, -, -, honly, -⟩ :=
            exists_split (g := fun m => m) hchildren (List.mem_flatMap.2 ⟨c, hchild, hmc⟩)
          rw [honly d hd (within_subset _ d hmd), honly c hchild hmc]
        rw [hsame] at hmd
        exact ih (nodup_ids_of_mem hchildren hchild) hm hmd

/-! ## one step after a change -/

section
variable (ns : Namespaces) {x : NodeId} {g : Node → Node}

theorem fits_congr {m n : Node} (h : m.element? = n.element?) (s : ChildStep) :
    m.fits ns s = n.fits ns s := by
  have hmeets : m.meets = n.meets := by
    funext k
    rw [meets, meets, h]
  rw [fits, fits, isNamed, isNamed, h, hmeets]

theorem element?_update_of_keeps (hg : ∀ m : Node, (g m).element? = m.element?) (n : Node) :
    (n.update x g).element? = n.element? := by
  by_cases h : n.id = x
  · rw [update_self h, hg]
  · exact element?_update h

/-- A change elsewhere doesn't make a step lead on from a node, unless it changes what elements
hold and the step asks for an element. -/
theorem walk_update_of_ne {n : Node} {s : Step} (hx : n.id ≠ x) (hnone : n.walk ns [s] = [])
    (hg : s.isAttribute = true ∨ ∀ m : Node, (g m).element? = m.element?) (rest : List Step) :
    (n.update x g).walk ns (s :: rest) = [] := by
  refine walk_cons_of_nil ns ?_ rest
  cases n with
  | leaf j l t =>
    rw [update_leaf (show j ≠ x from hx)]
    exact hnone
  | element j e cs t =>
    rw [update_element (show j ≠ x from hx)]
    cases s with
    | «attribute» a => exact hnone
    | element s =>
      have hkeep := hg.resolve_left (by simp [Step.isAttribute])
      have hfits : (fits ns s) ∘ (update x g) = fits ns s := by
        funext c
        exact fits_congr ns (element?_update_of_keeps hkeep c) s
      have hempty : cs.filter (fits ns s) = [] := by
        have hmap : (cs.filter (fits ns s)).map (.node ·.id) = ([] : List Selected) := by
          rw [List.map_eq_flatMap]
          exact hnone
        exact List.map_eq_nil_iff.1 hmap
      show ((cs.map (update x g)).filter (fits ns s)).flatMap (walk ns []) = []
      rw [List.filter_map, hfits, hempty]
      rfl

/-! ## all steps after a change -/

/-- Of the children of an element that steps lead nowhere from, only the one that holds the changed
node counts. -/
theorem exists_walk_update_element {j : NodeId} {e : Element} {cs : List Node} {tl : Option String}
    (hn : (element j e cs tl).ids.Nodup) (hj : j ≠ x) (hmem : x ∈ cs.flatMap ids)
    {pre : List Step} (hpre : ∀ s ∈ pre, s.isAttribute = false) {t : ChildStep} {s : Step}
    (hnone : (element j e cs tl).walk ns (.element t :: pre ++ [s]) = []) :
    ∃ c ∈ cs, x ∈ c.ids ∧ (c.fits ns t = true → c.walk ns (pre ++ [s]) = []) ∧
      ∀ rest, ((element j e cs tl).update x g).walk ns (.element t :: pre ++ s :: rest) =
        if (c.update x g).fits ns t then (c.update x g).walk ns (pre ++ s :: rest) else [] := by
  rw [ids_element, List.nodup_cons] at hn
  obtain ⟨before, c, after, hsplit, hxc, -, hmap⟩ := exists_split (g := g) hn.2 hmem
  have hchild : ∀ d ∈ cs, d.fits ns t = true → d.walk ns (pre ++ [s]) = [] := fun d hd hfits =>
    List.flatMap_eq_nil_iff.1 hnone d (List.mem_filter.2 ⟨hd, hfits⟩)
  have hothers : ∀ l ⊆ cs, ∀ rest,
      (l.filter (fits ns t)).flatMap (walk ns (pre ++ s :: rest)) = [] := by
    intro l hl rest
    refine List.flatMap_eq_nil_iff.2 fun d hd => ?_
    obtain ⟨hd, hfits⟩ := List.mem_filter.1 hd
    exact walk_append_of_nil ns hpre (hchild d (hl hd) hfits) rest
  have hc : c ∈ cs := by
    rw [hsplit]
    exact List.mem_append_right _ List.mem_cons_self
  have hbefore : before ⊆ cs := by
    rw [hsplit]
    exact List.subset_append_left _ _
  have hafter : after ⊆ cs := by
    rw [hsplit]
    exact List.Subset.trans (List.subset_cons_self _ _) (List.subset_append_right _ _)
  refine ⟨c, hc, hxc, hchild c hc, fun rest => ?_⟩
  have hcons : before ++ c.update x g :: after = before ++ ([c.update x g] ++ after) := rfl
  rw [update_element hj, List.cons_append, walk, childrenAt, children, hmap, hcons,
    List.filter_append, List.filter_append, List.flatMap_append, List.flatMap_append,
    hothers before hbefore rest, hothers after hafter rest, List.append_nil, List.nil_append]
  by_cases hfits : (c.update x g).fits ns t = true
  · rw [List.filter_cons_of_pos hfits, List.filter_nil, List.flatMap_singleton, if_pos hfits]
  · rw [List.filter_cons_of_neg hfits, if_neg hfits]
    rfl

/-- **Where steps lead after a change below**: nowhere still, or on from the changed node. -/
theorem walk_update_or {n : Node} (hn : n.ids.Nodup) {pre : List Step}
    (hpre : ∀ s ∈ pre, s.isAttribute = false) {s : Step} (hx : x ∉ n.within pre.length)
    (hnone : n.walk ns (pre ++ [s]) = [])
    (hg : s.isAttribute = true ∨ ∀ m : Node, (g m).element? = m.element?) :
    (∀ rest, (n.update x g).walk ns (pre ++ s :: rest) = []) ∨
      ∃ m ∈ n.nodes, m.id = x ∧ (s.isAttribute = false → m.walk ns [s] = []) ∧
        ∀ rest, (n.update x g).walk ns (pre ++ s :: rest) = (g m).walk ns (s :: rest) := by
  by_cases hmem : x ∈ n.ids
  swap
  · refine .inl fun rest => ?_
    rw [update_of_not_mem hmem]
    exact walk_append_of_nil ns hpre hnone rest
  induction pre generalizing n with
  | nil =>
    by_cases hnx : n.id = x
    · refine .inr ⟨n, self_mem_nodes n, hnx, fun _ => hnone, fun rest => ?_⟩
      rw [update_self hnx]
      rfl
    · exact .inl (walk_update_of_ne ns hnx hnone hg)
  | cons t pre ih =>
    have hpre' : ∀ s ∈ pre, s.isAttribute = false :=
      fun s hs => hpre s (List.mem_cons_of_mem _ hs)
    rw [List.length_cons, within, List.mem_cons, not_or] at hx
    obtain ⟨hne, hxcs⟩ := hx
    cases t with
    | «attribute» a => exact absurd (hpre _ List.mem_cons_self) (by simp [Step.isAttribute])
    | element t =>
      cases n with
      | leaf j l tl =>
        rw [ids_leaf, List.mem_singleton] at hmem
        exact absurd hmem hne
      | element j e cs tl =>
        have hj : j ≠ x := fun hj => hne hj.symm
        have hmem' : x ∈ cs.flatMap ids := by
          rw [ids_element, List.mem_cons] at hmem
          exact hmem.resolve_left hne
        obtain ⟨c, hc, hxc, hchild, hwalk⟩ :=
          exists_walk_update_element ns (g := g) hn hj hmem' hpre' hnone
        have hxc' : x ∉ c.within pre.length := fun h =>
          hxcs (List.mem_flatMap.2 ⟨c, hc, h⟩)
        have hnodes : ∀ m ∈ c.nodes, m ∈ (element j e cs tl).nodes := fun m hm => by
          rw [nodes_element]
          exact List.mem_cons_of_mem _ (List.mem_flatMap.2 ⟨c, hc, hm⟩)
        by_cases hfits : (c.update x g).fits ns t = true
        swap
        · refine .inl fun rest => ?_
          rw [hwalk, if_neg hfits]
        simp only [if_pos hfits] at hwalk
        by_cases hfits' : c.fits ns t = true
        · rw [ids_element, List.nodup_cons] at hn
          rcases ih (nodup_ids_of_mem hn.2 hc) hpre' hxc' (hchild hfits') hxc with
            hnil | ⟨m, hm, hmx, hfree, hchanged⟩
          · exact .inl fun rest => (hwalk rest).trans (hnil rest)
          · exact .inr ⟨m, hnodes m hm, hmx, hfree, fun rest => (hwalk rest).trans (hchanged rest)⟩
        · -- the change makes the step lead to the child: it is the changed one
          have hcx : c.id = x := by
            by_contra hcx
            exact hfits' ((fits_congr ns (element?_update hcx) t) ▸ hfits)
          have hattribute : s.isAttribute = true := hg.resolve_right fun hg =>
            hfits' ((fits_congr ns (element?_update_of_keeps hg c) t) ▸ hfits)
          obtain rfl : pre = [] := by
            cases pre with
            | nil => rfl
            | cons t' pre => exact absurd (hcx ▸ List.mem_cons_self) hxc'
          refine .inr ⟨c, hnodes c (self_mem_nodes c), hcx, fun h => ?_, fun rest => ?_⟩
          · rw [hattribute] at h
            exact absurd h (by simp)
          · rw [hwalk, update_self hcx]
            rfl

/-! ## what is made -/

/-- Where a step led nowhere, it leads to a new child if it fits that. -/
theorem walk_insertAt {n : Node} (hn : n.isElement = true) {s : ChildStep}
    (hnone : n.walk ns [.element s] = []) (k : Nat) (z : Node) (rest : List Step) :
    (insertAt k z n).walk ns (.element s :: rest) = if z.fits ns s then z.walk ns rest else [] := by
  have hempty : n.childrenAt ns s = [] := by
    have hmap : (n.childrenAt ns s).map (.node ·.id) = ([] : List Selected) := by
      rw [List.map_eq_flatMap]
      exact hnone
    exact List.map_eq_nil_iff.1 hmap
  have hside : ∀ l : List Node, l ⊆ n.children → l.filter (fits ns s) = [] := by
    intro l hl
    rw [List.filter_eq_nil_iff]
    intro d hd
    exact List.filter_eq_nil_iff.1 hempty d (hl hd)
  have hchildren : (insertAt k z n).childrenAt ns s = [z].filter (fits ns s) := by
    rw [childrenAt, children_insertAt hn, ← List.singleton_append, List.filter_append,
      List.filter_append, hside _ (List.take_subset k n.children),
      hside _ (List.drop_subset k n.children), List.append_nil, List.nil_append]
  rw [walk, hchildren]
  by_cases hfits : z.fits ns s = true
  · rw [List.filter_cons_of_pos hfits, List.filter_nil, List.flatMap_singleton, if_pos hfits]
  · rw [List.filter_cons_of_neg hfits, if_neg hfits]
    rfl

section
variable {n : Node} (hn : n.ids.Nodup) {pre : List Step}
  (hpre : ∀ s ∈ pre, s.isAttribute = false) (hx : x ∉ n.within pre.length)
include hn hpre hx

/-- A new element that is inserted below is all that the steps can lead to then. -/
theorem walk_insert {s : ChildStep} (hnone : n.walk ns (pre ++ [.element s]) = []) (k : Nat)
    (z : Node) :
    (∀ rest, (n.update x (insertAt k z)).walk ns (pre ++ .element s :: rest) = []) ∨
      ∀ rest, (n.update x (insertAt k z)).walk ns (pre ++ .element s :: rest) =
        z.walk ns rest := by
  rcases walk_update_or ns (g := insertAt k z) hn hpre hx hnone
    (.inr (element?_insertAt k z)) with hnil | ⟨m, -, -, hfree, hchanged⟩
  · exact .inl hnil
  · cases m with
    | leaf j l t => exact .inl fun rest => (hchanged rest).trans rfl
    | element j e cs t =>
      have hinserted := walk_insertAt ns (n := element j e cs t) rfl (hfree rfl) k z
      by_cases hfits : z.fits ns s = true
      · exact .inr fun rest => (hchanged rest).trans ((hinserted rest).trans (if_pos hfits))
      · exact .inl fun rest => (hchanged rest).trans ((hinserted rest).trans (if_neg hfits))

/-- A new attribute below is all that the steps can lead to then. -/
theorem walk_addAttribute {a : String} (hnone : n.walk ns (pre ++ [.attribute a]) = []) :
    (n.update x (addAttribute a)).walk ns (pre ++ [.attribute a]) = [] ∨
      (n.update x (addAttribute a)).walk ns (pre ++ [.attribute a]) = [.attribute ⟨x, a⟩] := by
  rcases walk_update_or ns (g := addAttribute a) hn hpre hx hnone
    (.inl rfl) with hnil | ⟨m, -, rfl, -, hchanged⟩
  · exact .inl (hnil [])
  · rw [hchanged, walk, id_addAttribute]
    by_cases h : (m.addAttribute a).hasAttribute a = true
    · right
      rw [if_pos h]
    · left
      rw [if_neg h]

end

end

end XmlPaths.Node

import XmlPaths.Proofs.Selection.Legible
import XmlPaths.Proofs.Tree.Update

/-!
# What stays selected

Expressions can demand nodes and attributes only, and never that something is not there.  So what
is selected stays selected while nodes keep their names, their attributes and their children,
whatever is put among them.

* `Node.KeptIn`       a node with all that it was, and maybe more;
* `Forest.Keeps`      a forest in which every node of another one is kept;
* `Forest.Keeps.walk_sublist`   steps lead to what they led to, in the same order;
* `Forest.Keeps.selectFrom`     expressions select what they selected.
-/

namespace XmlPaths

/-- The name of the node, its attributes and its children are still there, in their order. -/
structure Node.KeptIn (n n' : Node) : Prop where
  element : ∀ e ∈ n.element?, ∃ e' ∈ n'.element?, e'.name = e.name ∧
    e.attributes.Sublist e'.attributes
  children : (n.children.map Node.id).Sublist (n'.children.map Node.id)

/-- Every node of the forest `f` is kept in the forest `f'`. -/
def Forest.Keeps (f f' : Forest) : Prop :=
  ∀ x n, f.node? x = some n → ∃ n', f'.node? x = some n' ∧ n.KeptIn n'

namespace Node

theorem KeptIn.refl (n : Node) : n.KeptIn n :=
  ⟨fun e he => ⟨e, he, rfl, List.Sublist.refl _⟩, List.Sublist.refl _⟩

theorem KeptIn.trans {n n' n'' : Node} (h : n.KeptIn n') (h' : n'.KeptIn n'') : n.KeptIn n'' := by
  refine ⟨fun e he => ?_, h.children.trans h'.children⟩
  obtain ⟨e', he', hname, hattributes⟩ := h.element e he
  obtain ⟨e'', he'', hname', hattributes'⟩ := h'.element e' he'
  exact ⟨e'', he'', hname'.trans hname, hattributes.trans hattributes'⟩

end Node

namespace Forest

theorem Keeps.refl (f : Forest) : f.Keeps f := fun _ n hn => ⟨n, hn, Node.KeptIn.refl n⟩

theorem Keeps.trans {f f' f'' : Forest} (h : f.Keeps f') (h' : f'.Keeps f'') : f.Keeps f'' := by
  intro x n hn
  obtain ⟨n', hn', hkept⟩ := h x n hn
  obtain ⟨n'', hn'', hkept'⟩ := h' x n' hn'
  exact ⟨n'', hn'', hkept.trans hkept'⟩

theorem Keeps.isElement {f f' : Forest} (h : f.Keeps f') {x : NodeId}
    (hx : f.isElement x = true) : f'.isElement x = true := by
  rw [Forest.isElement, Option.any_eq_true] at hx ⊢
  obtain ⟨n, hn, hel⟩ := hx
  obtain ⟨n', hn', hkept⟩ := h x n hn
  obtain ⟨e, he⟩ := Option.isSome_iff_exists.1 hel
  obtain ⟨e', he', -⟩ := hkept.element e he
  exact ⟨n', hn', Option.isSome_iff_exists.2 ⟨e', he'⟩⟩

end Forest

/-! ## attributes -/

theorem Element.attribute?_of_sublist {e e' : Element} (h : e.attributes.Sublist e'.attributes)
    (hnodup : (e'.attributes.map Attribute.name).Nodup) {n : Name} {v : String}
    (hv : e.attribute? n = some v) : e'.attribute? n = some v := by
  obtain ⟨a, ha, rfl⟩ := Option.map_eq_some_iff.1 hv
  have hmem := h.subset (List.mem_of_find?_eq_some ha)
  have hname : a.name = n := by simpa using List.find?_some ha
  rw [Element.attribute?, Option.map_eq_some_iff]
  refine ⟨a, ?_, rfl⟩
  cases hb : e'.attributes.find? (·.name == n) with
  | none => exact absurd (List.find?_eq_none.1 hb a hmem) (by simp [hname])
  | some b =>
    have hname' : b.name = n := by simpa using List.find?_some hb
    have hsame : b = a := List.inj_on_of_nodup_map hnodup (List.mem_of_find?_eq_some hb) hmem
      (hname'.trans hname.symm)
    rw [hsame]

section
variable {n n' : Node} (h : n.KeptIn n') (hn' : Node.DistinctAttributes n'.element?)
include h hn'

theorem Node.KeptIn.hasAttribute {a : String} (ha : n.hasAttribute a = true) :
    n'.hasAttribute a = true := by
  rw [Node.hasAttribute, Option.any_eq_true] at ha ⊢
  obtain ⟨e, he, ha⟩ := ha
  obtain ⟨e', he', -, hattributes⟩ := h.element e he
  obtain ⟨v, hv⟩ := Option.isSome_iff_exists.1 ha
  refine ⟨e', he', ?_⟩
  rw [Element.attribute?_of_sublist hattributes (hn' e' he') hv]
  rfl

theorem Node.KeptIn.meets {k : Comparison} (hk : n.meets k = true) : n'.meets k = true := by
  rw [Node.meets, Option.any_eq_true] at hk ⊢
  obtain ⟨e, he, hk⟩ := hk
  obtain ⟨e', he', -, hattributes⟩ := h.element e he
  refine ⟨e', he', ?_⟩
  rw [Element.meets] at hk ⊢
  cases hvalue : k.value with
  | none =>
    rw [hvalue] at hk
    obtain ⟨v, hv⟩ := Option.isSome_iff_exists.1 hk
    dsimp only
    rw [Element.attribute?_of_sublist hattributes (hn' e' he') hv]
    rfl
  | some v =>
    rw [hvalue] at hk
    dsimp only
    rw [Element.attribute?_of_sublist hattributes (hn' e' he') (eq_of_beq hk)]
    exact beq_self_eq_true _

theorem Node.KeptIn.fits {ns : Namespaces} {s : ChildStep} (hs : n.fits ns s = true) :
    n'.fits ns s = true := by
  rw [Node.fits, Bool.and_eq_true, List.all_eq_true] at hs ⊢
  refine ⟨?_, fun k hk => h.meets hn' (hs.2 k hk)⟩
  rw [Node.isNamed, Option.any_eq_true] at hs ⊢
  obtain ⟨⟨e, he, hname⟩, -⟩ := hs
  obtain ⟨e', he', hname', -⟩ := h.element e he
  exact ⟨e', he', by rw [hname']; exact hname⟩

end

/-! ## steps -/

/-- What each node of a list leads to is part of what its counterpart in another list leads to. -/
theorem flatMap_sublist_of_ids {α : Type} {F G : Node → List α} {cs cs' : List Node}
    (h : (cs.map Node.id).Sublist (cs'.map Node.id))
    (hFG : ∀ c ∈ cs, ∀ c' ∈ cs', c.id = c'.id → (F c).Sublist (G c')) :
    (cs.flatMap F).Sublist (cs'.flatMap G) := by
  induction cs' generalizing cs with
  | nil =>
    rw [List.map_nil, List.sublist_nil, List.map_eq_nil_iff] at h
    rw [h]
    exact List.Sublist.refl _
  | cons c' cs' ih =>
    rw [List.flatMap_cons]
    cases cs with
    | nil => exact List.nil_sublist _
    | cons c cs =>
      rw [List.map_cons, List.map_cons, List.sublist_cons_iff] at h
      rcases h with h | ⟨r, hr, h⟩
      · have hall : ((c :: cs).map Node.id).Sublist (cs'.map Node.id) := h
        have hrest := ih hall fun d hd d' hd' => hFG d hd d' (List.mem_cons_of_mem _ hd')
        exact hrest.trans (List.sublist_append_right _ _)
      · obtain ⟨hid, rfl⟩ := List.cons.inj hr
        have hfirst := hFG c List.mem_cons_self c' List.mem_cons_self hid
        have hrest := ih h fun d hd d' hd' =>
          hFG d (List.mem_cons_of_mem _ hd) d' (List.mem_cons_of_mem _ hd')
        rw [List.flatMap_cons]
        exact hfirst.append hrest

theorem Node.walk_element (ns : Namespaces) (s : ChildStep) (rest : List Step) (n : Node) :
    n.walk ns (.element s :: rest) =
      n.children.flatMap fun c => if c.fits ns s then c.walk ns rest else [] := by
  rw [Node.walk, Node.childrenAt]
  induction n.children with
  | nil => rfl
  | cons c cs ih =>
    rw [List.flatMap_cons, ← ih, List.filter_cons]
    split
    · rw [List.flatMap_cons]
    · rw [List.nil_append]

namespace Forest

section
variable {f f' : Forest} (hf : f.Sound) (hf' : f'.Sound) (h : f.Keeps f')
include hf hf' h

/-- **Steps lead to what they led to**, in the same order, and maybe to more. -/
theorem Keeps.walk_sublist (ns : Namespaces) (steps : List Step) {x : NodeId} {n n' : Node}
    (hn : f.node? x = some n) (hn' : f'.node? x = some n') :
    (n.walk ns steps).Sublist (n'.walk ns steps) := by
  induction steps generalizing x n n' with
  | nil =>
    rw [Node.walk, Node.walk, (mem_of_node? hn).2, (mem_of_node? hn').2]
  | cons s rest ih =>
    obtain ⟨m, hm, hkept⟩ := h x n hn
    obtain rfl : m = n' := Option.some.inj (hm.symm.trans hn')
    obtain ⟨hmem, hid⟩ := mem_of_node? hn
    obtain ⟨hmem', hid'⟩ := mem_of_node? hn'
    cases s with
    | «attribute» a =>
      rw [Node.walk, Node.walk, hid, hid']
      by_cases ha : n.hasAttribute a = true
      · rw [if_pos ha, if_pos (hkept.hasAttribute (hf'.attributes m hmem') ha)]
      · rw [if_neg ha]
        exact List.nil_sublist _
    | element s =>
      rw [Node.walk_element, Node.walk_element]
      refine flatMap_sublist_of_ids hkept.children fun c hc c' hc' heq => ?_
      -- the child is found in both forests under the same identity
      have hfound := hf.node?_of_mem (mem_nodes_of_mem_children hmem hc)
      have hfound' := hf'.node?_of_mem (mem_nodes_of_mem_children hmem' hc')
      rw [← heq] at hfound'
      obtain ⟨d, hd, hkept'⟩ := h c.id c hfound
      obtain rfl : d = c' := Option.some.inj (hd.symm.trans hfound')
      by_cases hfits : c.fits ns s = true
      · rw [if_pos hfits, if_pos (hkept'.fits (hf'.attributes d (mem_of_node? hd).1) hfits)]
        exact ih hfound hfound'
      · rw [if_neg hfits]
        exact List.nil_sublist _

/-- **What an expression selects it selects in all forests that keep the nodes.** -/
theorem Keeps.selectFrom {e : String} {p : Path} (hp : Path.parse e = .ok p) {ns : Namespaces}
    {x : NodeId} {n : Node} (hn : f.node? x = some n) {sel : List Selected}
    (hsel : selectFrom f x e ns = .ok sel) :
    ∃ sel', selectFrom f' x e ns = .ok sel' ∧ sel.Sublist sel' := by
  obtain ⟨n', hn', -⟩ := h x n hn
  rcases readable_or_unreadable hp ns with hread | ⟨failure, herror⟩
  · obtain rfl := Except.ok.inj ((hread f x n hf hn).symm.trans hsel)
    exact ⟨_, hread f' x n' hf' hn', h.walk_sublist hf hf' ns p.steps hn hn'⟩
  · rw [herror f x n hf hn] at hsel
    exact absurd hsel (by simp)

end

end Forest

end XmlPaths

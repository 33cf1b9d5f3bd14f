import XmlPaths.Proofs.Build.Attributes
import XmlPaths.Proofs.Selection.Walk
import XmlPaths.Proofs.Tree.Update

/-!
# Nodes with what steps describe

What is made for steps, said without making it: a chain of new elements below a node, each of them
the only child of the one before, and an attribute of the last one if the steps end with one.

* `ChildStep.newElement`     the element that a step describes;
* `Node.extend`, `Forest.extend`   a node, and a forest, with what steps describe;
* `lastMade`                 what the last step describes;
* `Node.walk_extend`         the steps lead to it, after all that they led to before.
-/

namespace XmlPaths

/-- a new element, without text and children -/
def ChildStep.newElement (s : ChildStep) (ns : Namespaces) (i : NodeId) : Node :=
  .element i ⟨s.nameIn ns, s.attributes, none⟩ [] none

/-- The node with what the steps describe: a chain of new elements behind its children, with
identities from `i` on, or an attribute, which stays as it is if it is there. -/
def Node.extend (ns : Namespaces) (i : NodeId) : List Step → Node → Node
  | [], n => n
  | .element s :: rest, n =>
    n.withChildren (· ++ [Node.extend ns (i + 1) rest (s.newElement ns i)])
  | .attribute a :: _, n =>
    if n.hasAttribute a then n else n.mapElement (·.setAttribute ⟨none, a⟩ "")

/-- what the last one of the steps describes, below the node `x` -/
def lastMade (i x : NodeId) : List Step → Selected
  | [] => .node x
  | .element _ :: rest => lastMade (i + 1) i rest
  | .attribute a :: _ => .attribute ⟨x, a⟩

/-- the number of elements that steps describe, in front of an attribute -/
def elementCount : List Step → Nat
  | .element _ :: rest => elementCount rest + 1
  | _ => 0

def Forest.extend (f : Forest) (ns : Namespaces) (x : NodeId) (steps : List Step) : Forest :=
  f.grow x (Node.extend ns f.next steps) (f.next + elementCount steps)

namespace Node

section
variable (ns : Namespaces)

theorem id_extend (i : NodeId) (steps : List Step) (n : Node) :
    (n.extend ns i steps).id = n.id := by
  cases steps with
  | nil => rfl
  | cons s rest =>
    cases s with
    | element s => exact id_withChildren _ n
    | «attribute» a =>
      rw [extend]
      split
      · rfl
      · exact id_mapElement _ n

/-! ## attributes of extended nodes -/

theorem attribute?_setAttribute (e : Element) (n : Name) (v : String)
    (h : e.attribute? n = none) (m : Name) :
    (e.setAttribute n v).attribute? m = if m = n then some v else e.attribute? m := by
  rw [Element.setAttribute, if_neg (by rw [h]; simp)]
  rw [Element.attribute?, Option.map_eq_none_iff] at h
  rw [Element.attribute?, List.find?_append, List.find?_singleton]
  by_cases hm : m = n
  · rw [if_pos hm, hm, h]
    simp
  · have hbeq : (n == m) = false := by simpa using fun hnm => hm hnm.symm
    rw [if_neg hm, hbeq]
    simp [Element.attribute?]

section
variable {j : NodeId} {e : Element} {cs : List Node} {t : Option String} {a : String}

omit ns in
theorem attribute?_of_not_hasAttribute (h : ¬ (element j e cs t).hasAttribute a = true) :
    e.attribute? ⟨none, a⟩ = none := by
  simpa [hasAttribute, element?] using h

theorem extend_attribute (h : ¬ (element j e cs t).hasAttribute a = true) (i : NodeId)
    (rest : List Step) : (element j e cs t).extend ns i (.attribute a :: rest) =
      element j (e.setAttribute ⟨none, a⟩ "") cs t := by
  rw [extend, if_neg h]
  rfl

end

/-- Extending a node takes nothing away that a step may demand. -/
theorem fits_extend {i : NodeId} {steps : List Step} {n : Node} {s' : ChildStep}
    (h : n.fits ns s' = true) : (n.extend ns i steps).fits ns s' = true := by
  cases steps with
  | nil => exact h
  | cons s rest =>
    cases n with
    | leaf j l t => exact absurd h (by simp [fits, isNamed, element?])
    | element j e cs t =>
      cases s with
      | element s => exact h
      | «attribute» a =>
        by_cases ha : (element j e cs t).hasAttribute a = true
        · rw [extend, if_pos ha]
          exact h
        · have hnone := attribute?_of_not_hasAttribute ha
          rw [extend_attribute ns ha]
          rw [fits, Bool.and_eq_true, List.all_eq_true] at h ⊢
          refine ⟨?_, fun k hk => ?_⟩
          · have hnamed : e.name == s'.nameIn ns := by simpa [isNamed, element?] using h.1
            rw [isNamed, element?, Option.any_some, Element.setAttribute,
              if_neg (by rw [hnone]; simp)]
            exact hnamed
          · have hmet : e.meets k = true := by simpa [meets, element?] using h.2 k hk
            have hne : (⟨none, k.name⟩ : Name) ≠ ⟨none, a⟩ := by
              intro heq
              rw [Element.meets, heq, hnone] at hmet
              cases hv : k.value with
              | none => rw [hv] at hmet; exact absurd hmet (by simp)
              | some v => rw [hv] at hmet; exact absurd hmet (by simp)
            rw [meets, element?, Option.any_some, Element.meets,
              attribute?_setAttribute e _ _ hnone, if_neg hne]
            exact hmet

theorem fits_newElement {s : ChildStep} (hs : Consistent s.comparisons) (i : NodeId) :
    (s.newElement ns i).fits ns s = true := by
  rw [fits, Bool.and_eq_true, List.all_eq_true]
  refine ⟨by simp [ChildStep.newElement, isNamed, element?], fun k hk => ?_⟩
  have hmem : k.name ∈ mentioned s.comparisons := mem_mentioned.2 ⟨k, hk, rfl⟩
  rw [ChildStep.newElement, meets, element?, Option.any_some, Element.meets,
    ChildStep.attribute?_attributes, if_pos hmem]
  cases hv : k.value with
  | none => rfl
  | some v =>
    rw [demanded_of_mem hs hk hv]
    simp

theorem hasAttribute_newElement (s : ChildStep) (i : NodeId) (a : String) :
    (s.newElement ns i).hasAttribute a = true ↔ ∃ k ∈ s.comparisons, k.name = a := by
  rw [ChildStep.newElement, hasAttribute, element?, Option.any_some,
    ChildStep.attribute?_attributes, ← mem_mentioned]
  by_cases h : a ∈ mentioned s.comparisons
  · simp [h]
  · simp [h]

/-! ## where the steps lead then -/

theorem walk_extend_attribute {n : Node} (hn : n.isElement = true) (i : NodeId) (a : String)
    (rest : List Step) :
    (n.extend ns i (.attribute a :: rest)).walk ns (.attribute a :: rest) =
      [.attribute ⟨n.id, a⟩] := by
  cases n with
  | leaf j l t => exact absurd hn (by simp [isElement, element?])
  | element j e cs t =>
    by_cases h : (element j e cs t).hasAttribute a = true
    · rw [extend, if_pos h, walk, if_pos h]
    · have hnone := attribute?_of_not_hasAttribute h
      have hset : (element j (e.setAttribute ⟨none, a⟩ "") cs t).hasAttribute a = true := by
        rw [hasAttribute, element?, Option.any_some, attribute?_setAttribute e _ _ hnone,
          if_pos rfl]
        rfl
      rw [extend_attribute ns h, walk, if_pos hset]
      rfl

theorem walk_extend_new {steps : List Step}
    (hsteps : ∀ s, Step.element s ∈ steps → Consistent s.comparisons) (i j : NodeId) (e : Element)
    (t : Option String) :
    ((element j e [] t).extend ns i steps).walk ns steps = [lastMade i j steps] := by
  induction steps generalizing i j e t with
  | nil => rfl
  | cons s rest ih =>
    cases s with
    | element s =>
      have hfits : ((s.newElement ns i).extend ns (i + 1) rest).fits ns s = true :=
        fits_extend ns (fits_newElement ns (hsteps s List.mem_cons_self) i)
      have hwalk := ih (fun s' hs' => hsteps s' (List.mem_cons_of_mem _ hs')) (i + 1) i
        ⟨s.nameIn ns, s.attributes, none⟩ none
      rw [extend, withChildren, walk, childrenAt, children, List.nil_append,
        List.filter_cons_of_pos hfits, List.filter_nil, List.flatMap_singleton]
      exact hwalk
    | «attribute» a => exact walk_extend_attribute ns rfl i a rest

/-- **What the steps lead to from an extended node**: the same as before, and what was made last. -/
theorem walk_extend {s : Step} {rest : List Step}
    (hsteps : ∀ s', Step.element s' ∈ s :: rest → Consistent s'.comparisons) (i : NodeId) {n : Node}
    (hn : n.isElement = true) (hnew : ∀ a, s = .attribute a → n.hasAttribute a = false) :
    (n.extend ns i (s :: rest)).walk ns (s :: rest) =
      n.walk ns (s :: rest) ++ [lastMade i n.id (s :: rest)] := by
  cases s with
  | «attribute» a =>
    rw [walk_extend_attribute ns hn, walk, hnew a rfl, if_neg (by simp)]
    rfl
  | element s =>
    cases n with
    | leaf j l t => exact absurd hn (by simp [isElement, element?])
    | element j e cs t =>
      have hfits : ((s.newElement ns i).extend ns (i + 1) rest).fits ns s = true :=
        fits_extend ns (fits_newElement ns (hsteps s List.mem_cons_self) i)
      have hwalk := walk_extend_new ns (fun s' hs' => hsteps s' (List.mem_cons_of_mem _ hs'))
        (i + 1) i ⟨s.nameIn ns, s.attributes, none⟩ none
      rw [extend, withChildren, walk, walk, childrenAt, childrenAt, children, children,
        List.filter_append, List.filter_cons_of_pos hfits, List.filter_nil,
        List.flatMap_append, List.flatMap_singleton]
      exact congrArg _ hwalk

/-! ## extended nodes are sound -/

theorem ids_mapElement (g : Element → Element) (n : Node) : (n.mapElement g).ids = n.ids := by
  cases n with
  | element j e cs t => rw [mapElement, ids_element, ids_element]
  | leaf j l t => rfl

theorem ids_extend (i : NodeId) (steps : List Step) {n : Node} (hn : n.isElement = true) :
    (n.extend ns i steps).ids.Perm (List.range' i (elementCount steps) ++ n.ids) := by
  induction steps generalizing i n with
  | nil => exact List.Perm.refl _
  | cons s rest ih =>
    cases s with
    | «attribute» a =>
      have hids : (n.extend ns i (.attribute a :: rest)).ids = n.ids := by
        rw [extend]
        split
        · rfl
        · exact ids_mapElement _ n
      rw [hids, elementCount]
      · exact List.Perm.refl _
      · intro s' rest' h
        exact absurd (List.cons.inj h).1 (by simp)
    | element s =>
      cases n with
      | leaf j l t => exact absurd hn (by simp [isElement, element?])
      | element j e cs t =>
        have hnew := ih (i + 1) (n := s.newElement ns i) rfl
        rw [List.perm_iff_count] at hnew ⊢
        intro y
        have hy := hnew y
        rw [List.count_append, ChildStep.newElement, ids_element, List.flatMap_nil] at hy
        rw [extend, withChildren, ids_element, ids_element, List.flatMap_append,
          List.flatMap_singleton, elementCount, List.range'_succ, List.count_cons,
          List.count_append, List.count_append, List.count_cons, List.count_cons,
          ChildStep.newElement, hy, List.count_singleton]
        omega

theorem nodup_setAttribute {e : Element} {n : Name} (h : e.attribute? n = none) (v : String)
    (he : (e.attributes.map Attribute.name).Nodup) :
    ((e.setAttribute n v).attributes.map Attribute.name).Nodup := by
  have hnew : n ∉ e.attributes.map Attribute.name := by
    rw [Element.attribute?, Option.map_eq_none_iff, List.find?_eq_none] at h
    intro hn
    obtain ⟨a, ha, rfl⟩ := List.mem_map.1 hn
    exact h a ha (by simp)
  rw [Element.setAttribute, if_neg (by rw [h]; simp), List.map_append, List.nodup_append]
  refine ⟨he, by simp, fun m hm m' hm' => ?_⟩
  rw [List.map_singleton, List.mem_singleton] at hm'
  rw [hm']
  rintro rfl
  exact hnew hm

/-- no element of an extended node has two attributes of one name -/
theorem attributes_extend (i : NodeId) (steps : List Step) {n : Node}
    (hn : ∀ m ∈ n.nodes, DistinctAttributes m.element?) :
    ∀ m ∈ (n.extend ns i steps).nodes, DistinctAttributes m.element? := by
  induction steps generalizing i n with
  | nil => exact hn
  | cons s rest ih =>
    cases n with
    | leaf j l t =>
      have hleaf : (leaf j l t).extend ns i (s :: rest) = leaf j l t := by
        cases s with
        | element s => rfl
        | «attribute» a => exact ite_self _
      rw [hleaf]
      exact hn
    | element j e cs t =>
      obtain ⟨hself, hchildren⟩ := forall_nodes_element.1 hn
      cases s with
      | element s =>
        have hnew : ∀ m ∈ (s.newElement ns i).nodes, DistinctAttributes m.element? := by
          refine forall_nodes_element.2 ⟨?_, fun c hc => absurd hc (by simp)⟩
          intro e' he'
          rw [← Option.some.inj he']
          exact s.nodup_attributes
        refine forall_nodes_element.2 ⟨hself, fun c hc => ?_⟩
        rcases List.mem_append.1 hc with hc | hc
        · exact hchildren c hc
        · rw [List.mem_singleton.1 hc]
          exact ih (i + 1) hnew
      | «attribute» a =>
        by_cases h : (element j e cs t).hasAttribute a = true
        · rw [extend, if_pos h]
          exact hn
        · rw [extend_attribute ns h]
          refine forall_nodes_element.2 ⟨?_, hchildren⟩
          intro e' he'
          rw [← Option.some.inj he']
          exact nodup_setAttribute (attribute?_of_not_hasAttribute h) "" (hself e rfl)

end

end Node

/-! ## forests -/

namespace Forest

theorem Sound.extend {f : Forest} (hf : f.Sound) (ns : Namespaces) {x : NodeId} {n : Node}
    (hx : f.node? x = some n) (hn : n.isElement = true) (steps : List Step) :
    (f.extend ns x steps).Sound := by
  have hmem := (mem_of_node? hx).1
  refine hf.grow hx (Node.ids_extend ns f.next steps hn) List.nodup_range' (fun y hy => ?_)
    (Nat.le_add_right _ _) (Node.attributes_extend ns f.next steps fun m hm =>
      hf.attributes m ((nodes_sublist_of_mem hmem).subset hm))
  rw [List.mem_range'_1] at hy
  exact hy

/-- The nodes above the extended one are found, and those they hold are extended. -/
theorem node?_extend {f : Forest} (hf : f.Sound) (ns : Namespaces) {x root : NodeId} {n m : Node}
    (hx : f.node? x = some n) (hn : n.isElement = true) (hm : f.node? root = some m)
    (hbelow : x ∈ m.ids) (steps : List Step) :
    (f.extend ns x steps).node? root = some (m.update x (Node.extend ns f.next steps)) :=
  node?_grow hf (hf.extend ns hx hn steps) hm hbelow fun m' hm' => by
    rw [Node.id_extend, hm']

/-- The first step, and then the further ones from what it brought. -/
theorem extend_extend {f : Forest} (hf : f.Sound) (ns : Namespaces) (x : NodeId) (s : ChildStep)
    (rest : List Step) :
    (f.extend ns x [.element s]).extend ns f.next rest = f.extend ns x (.element s :: rest) := by
  have hfresh : f.next ∉ f.ids := fun h => absurd (hf.lt_next _ h) (Nat.lt_irrefl _)
  have hstep : ∀ m ∈ f.nodes, m.id = x →
      (m.extend ns f.next [.element s]).update f.next (Node.extend ns (f.next + 1) rest) =
        m.extend ns f.next (.element s :: rest) := by
    intro m hm _
    have hnot : f.next ∉ m.ids := fun h =>
      hfresh (((nodes_sublist_of_mem hm).map Node.id).subset h)
    cases m with
    | leaf j l t => exact Node.update_of_not_mem hnot
    | element j e cs t =>
      rw [Node.ids_element, List.mem_cons, not_or] at hnot
      have hcs : cs.map (Node.update f.next (Node.extend ns (f.next + 1) rest)) = cs :=
        map_eq_self fun c hc =>
          Node.update_of_not_mem fun h => hnot.2 (List.mem_flatMap.2 ⟨c, hc, h⟩)
      have hself : (s.newElement ns f.next).update f.next (Node.extend ns (f.next + 1) rest) =
          (s.newElement ns f.next).extend ns (f.next + 1) rest := Node.update_self rfl
      show (Node.element j e (cs ++ [s.newElement ns f.next]) t).update f.next _ =
        .element j e (cs ++ [(s.newElement ns f.next).extend ns (f.next + 1) rest]) t
      rw [Node.update_element fun h => hnot.1 h.symm, List.map_append, List.map_singleton, hcs,
        hself]
  have hcount : f.next + elementCount (.element s :: rest) = f.next + 1 + elementCount rest := by
    rw [elementCount, Nat.add_assoc, Nat.add_comm 1]
  show (f.grow x (Node.extend ns f.next [.element s]) (f.next + 1)).grow f.next
    (Node.extend ns (f.next + 1) rest) (f.next + 1 + elementCount rest) = _
  rw [grow_grow _ _ hfresh hstep, extend, hcount]

end Forest

end XmlPaths

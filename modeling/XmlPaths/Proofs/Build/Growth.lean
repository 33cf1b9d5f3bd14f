import XmlPaths.Build.Resolve
import XmlPaths.Proofs.Build.Extension
import XmlPaths.Proofs.Tree.Parents

/-!
# What is made, feasible or not

A turn either fails and leaves the forest as it was, or it makes one thing: a new element among the
children of a node, or an empty attribute that the node didn't have.  Where a new element is put
behind a node without parent it is in no tree.

* `ChildStep.newNode`       the element that is made for a step, whose demands may be contradictory;
* `Node.insertAt`, `Node.addAttribute`   what happens to the node where something is made;
* `addStep_element`, `addStep_attribute`   the outcomes of one turn;
* `Forest.put_eq_grow`      a new element is inserted somewhere;
* `Forest.put_behind`       behind a child it is inserted among the children;
* `Forest.Sound.insert`, `Forest.Sound.addAttribute`   forests stay sound.
-/

namespace XmlPaths

/-! ## new elements -/

/-- the attributes that the comparisons of a step ask for; of contradictory values the last one -/
def ChildStep.derivedEntries (s : ChildStep) : Entries :=
  (Derivation.ofComparisons s.comparisons).attributes

def ChildStep.derived (s : ChildStep) : List Attribute :=
  s.derivedEntries.map fun e => ⟨⟨none, e.1⟩, e.2⟩

/-- The names and values of a step are accepted, whether it contradicts itself or not. -/
def Step.Makeable (ns : Namespaces) : Step → Prop
  | .element s => ∃ n, s.name ns = .ok n ∧ elementRefusal? n s.derivedEntries = none
  | .attribute a => isNcName a = true

/-- the element that is made for a step whose name is accepted -/
def ChildStep.newNode (s : ChildStep) (ns : Namespaces) (i : NodeId) : Node :=
  .element i ⟨(s.name ns).toOption.getD ⟨none, s.localName⟩, s.derived, none⟩ [] none

/-- Contradictory or not, comparisons give a new element the attributes that they ask for. -/
theorem ChildStep.derivedEntries_eq (s : ChildStep) : s.derivedEntries = asked s.comparisons :=
  (recorded_ofComparisons _).attributes

namespace ChildStep

theorem names_derived (s : ChildStep) :
    s.derived.map Attribute.name = (mentioned s.comparisons).map (⟨none, ·⟩) := by
  rw [derived, derivedEntries_eq, ← map_fst_asked, List.map_map, List.map_map]
  rfl

theorem nodup_derived (s : ChildStep) : (s.derived.map Attribute.name).Nodup := by
  rw [names_derived]
  exact (nodup_eraseDups _).map fun a b h => (Name.mk.inj h).2

end ChildStep

namespace Node

theorem hasAttribute_newNode (s : ChildStep) (ns : Namespaces) (i : NodeId) (a : String) :
    (s.newNode ns i).hasAttribute a = true ↔ ∃ k ∈ s.comparisons, k.name = a := by
  have hname : ⟨none, a⟩ ∈ s.derived.map Attribute.name ↔ a ∈ mentioned s.comparisons := by
    rw [ChildStep.names_derived, List.mem_map]
    constructor
    · rintro ⟨b, hb, hba⟩
      rwa [← (Name.mk.inj hba).2]
    · exact fun h => ⟨a, h, rfl⟩
  rw [ChildStep.newNode, hasAttribute, element?, Option.any_some, Element.attribute?,
    Option.isSome_map, List.find?_isSome, ← mem_mentioned, ← hname, List.mem_map]
  simp

theorem attributes_newNode (s : ChildStep) (ns : Namespaces) (i : NodeId) :
    ∀ m ∈ (s.newNode ns i).nodes, DistinctAttributes m.element? := by
  refine forall_nodes_element.2 ⟨?_, fun c hc => absurd hc (by simp)⟩
  intro e he
  rw [← Option.some.inj he]
  exact s.nodup_derived

theorem ids_newNode (s : ChildStep) (ns : Namespaces) (i : NodeId) :
    (s.newNode ns i).ids = [i] := by
  rw [ChildStep.newNode, ids_element, List.flatMap_nil]

/-- A new element leads on to an attribute that its step mentions, and to nothing else. -/
theorem walk_newNode (s : ChildStep) (ns : Namespaces) (i : NodeId) (t : Step) :
    (s.newNode ns i).walk ns [t] = [] ∨
      ∃ a, t = .attribute a ∧ (s.newNode ns i).hasAttribute a = true ∧
        (s.newNode ns i).walk ns [t] = [.attribute ⟨i, a⟩] := by
  cases t with
  | element t => exact .inl rfl
  | «attribute» a =>
    rw [walk]
    by_cases h : (s.newNode ns i).hasAttribute a = true
    · right
      refine ⟨a, rfl, h, ?_⟩
      rw [if_pos h]
      rfl
    · left
      rw [if_neg h]

/-! ## where something is made -/

/-- a node with a further child, in front of which there are `k` children or all of them -/
def insertAt (k : Nat) (z : Node) : Node → Node :=
  withChildren fun cs => cs.take k ++ z :: cs.drop k

/-- a node with an attribute without a value -/
def addAttribute (a : String) : Node → Node := mapElement (·.setAttribute ⟨none, a⟩ "")

theorem withChildren_congr {g h : List Node → List Node} {n : Node}
    (hgh : g n.children = h n.children) : n.withChildren g = n.withChildren h := by
  cases n with
  | leaf j l t => rfl
  | element j e cs t => exact congrArg (element j e · t) hgh

theorem nodup_children {n : Node} (hn : n.ids.Nodup) : (n.children.map id).Nodup := by
  rw [ids, nodes_eq, List.map_cons, List.nodup_cons, List.map_flatMap] at hn
  refine List.pairwise_map.2 ((List.nodup_flatMap.1 hn.2).2.imp fun hdisjoint heq => ?_)
  exact hdisjoint (id_mem_ids _) (heq ▸ id_mem_ids _)

section
variable {k : Nat} {z n : Node} {a : String}

@[simp] theorem id_insertAt (k : Nat) (z n : Node) : (insertAt k z n).id = n.id :=
  id_withChildren _ n

@[simp] theorem id_addAttribute (a : String) (n : Node) : (n.addAttribute a).id = n.id :=
  id_mapElement _ n

@[simp] theorem element?_insertAt (k : Nat) (z n : Node) :
    (insertAt k z n).element? = n.element? := by
  cases n <;> rfl

theorem children_insertAt (hn : n.isElement = true) :
    (insertAt k z n).children = n.children.take k ++ z :: n.children.drop k := by
  cases n with
  | leaf j l t => exact absurd hn (by simp [isElement, element?])
  | element j e cs t => rfl

theorem ids_insertAt (hn : n.isElement = true) :
    (insertAt k z n).ids.Perm (z.ids ++ n.ids) := by
  cases n with
  | leaf j l t => exact absurd hn (by simp [isElement, element?])
  | element j e cs t =>
    have hsplit : (cs.take k ++ cs.drop k).flatMap ids = cs.flatMap ids := by
      rw [List.take_append_drop]
    rw [insertAt, withChildren, ids_element, ids_element, ← hsplit, List.flatMap_append,
      List.flatMap_cons, List.flatMap_append]
    refine (List.Perm.cons j ?_).trans List.perm_middle.symm
    rw [← List.append_assoc, ← List.append_assoc]
    exact List.perm_append_comm.append_right _

theorem nodes_insertAt_subset {d : Node} (hd : d ∈ n.nodes) (hne : d ≠ n) :
    d ∈ (insertAt k z n).nodes := by
  cases n with
  | leaf j l t => exact hd
  | element j e cs t =>
    rw [nodes_element, List.mem_cons, List.mem_flatMap] at hd
    obtain ⟨c, hc, hd⟩ := hd.resolve_left hne
    rw [← List.take_append_drop k cs, List.mem_append] at hc
    rw [insertAt, withChildren, nodes_element, List.mem_cons, List.mem_flatMap]
    refine .inr ⟨c, ?_, hd⟩
    rw [List.mem_append, List.mem_cons]
    exact hc.imp_right .inr

theorem nodes_addAttribute_subset {d : Node} (hd : d ∈ n.nodes) (hne : d ≠ n) :
    d ∈ (n.addAttribute a).nodes := by
  cases n with
  | leaf j l t => exact hd
  | element j e cs t =>
    rw [nodes_element, List.mem_cons] at hd
    rw [addAttribute, mapElement, nodes_element]
    exact List.mem_cons_of_mem _ (hd.resolve_left hne)

theorem attributes_insertAt (hz : ∀ m ∈ z.nodes, DistinctAttributes m.element?)
    (hn : ∀ m ∈ n.nodes, DistinctAttributes m.element?) :
    ∀ m ∈ (insertAt k z n).nodes, DistinctAttributes m.element? := by
  cases n with
  | leaf j l t => exact hn
  | element j e cs t =>
    obtain ⟨hself, hchildren⟩ := forall_nodes_element.1 hn
    refine forall_nodes_element.2 ⟨hself, fun c hc => ?_⟩
    rcases List.mem_append.1 hc with hc | hc
    · exact hchildren c (List.mem_of_mem_take hc)
    · rcases List.mem_cons.1 hc with rfl | hc
      · exact hz
      · exact hchildren c (List.mem_of_mem_drop hc)

end

end Node

/-! ## one turn -/

/-- a new node at a place -/
def Forest.put (f : Forest) (z : Node) (p : Forest.Place) : Forest :=
  { f with next := f.next + 1 }.graft z p

/-- **A turn for an element** fails without any change, because of the name, the attributes or the
place, or it puts the new element at a place. -/
theorem addStep_element (f : Forest) (x : NodeId) (s : ChildStep) (ns : Namespaces)
    (names : Option (List String)) :
    (∃ conflicts failure, addStep f (.node x) (.element s) ns names =
        ⟨f, conflicts, .error failure⟩ ∧
      ((Step.element s).Makeable ns → ∀ p, placeOf f x names ns = .ok p → p.refusal? f ≠ none)) ∨
    ∃ p, (Step.element s).Makeable ns ∧ placeOf f x names ns = .ok p ∧ p.refusal? f = none ∧
      addStep f (.node x) (.element s) ns names =
        ⟨f.put (s.newNode ns f.next) p, s.conflicts, .ok (.node f.next)⟩ := by
  rw [addStep, addElement, ChildStep.blueprint]
  cases hname : s.name ns with
  | error failure =>
    refine .inl ⟨[], failure, rfl, fun ⟨n, hn, _⟩ => ?_⟩
    rw [hname] at hn
    exact absurd hn (by simp)
  | ok n =>
    dsimp only
    cases hrefusal : elementRefusal? n (Derivation.ofComparisons s.comparisons).attributes with
    | some r =>
      refine .inl ⟨s.conflicts, .refused r, rfl, fun ⟨n', hn', hnone⟩ => ?_⟩
      rw [hname] at hn'
      rw [← Except.ok.inj hn', ChildStep.derivedEntries, hrefusal] at hnone
      exact absurd hnone (by simp)
    | none =>
      cases hplace : placeOf f x names ns with
      | error failure =>
        refine .inl ⟨s.conflicts, failure, ?_, fun _ p hp => absurd hp (by simp)⟩
        simp [Outcome.andThen, Outcome.fail, hplace]
      | ok p =>
        cases hp : p.refusal? f with
        | some r =>
          refine .inl ⟨s.conflicts, .refused r, ?_, fun _ p' hp' => ?_⟩
          · simp [Outcome.andThen, Outcome.fail, hplace, hp]
          · rw [← Except.ok.inj hp', hp]
            simp
        | none =>
          refine .inr ⟨p, ⟨n, hname, hrefusal⟩, rfl, hp, ?_⟩
          have hnew : s.newNode ns f.next = .element f.next ⟨n, s.derived, none⟩ [] none := by
            rw [ChildStep.newNode, hname]
            rfl
          rw [hnew]
          simp [Outcome.andThen, Outcome.done, Forest.create, Forest.put, ChildStep.derived,
            ChildStep.derivedEntries, hplace, hp]

/-- **A turn for an attribute** fails without any change, or the node gets an attribute that it
didn't have. -/
theorem addStep_attribute (f : Forest) (x : NodeId) (a : String) (ns : Namespaces)
    (names : Option (List String)) :
    (∃ failure, addStep f (.node x) (.attribute a) ns names = .fail f failure ∧
      ((Step.attribute a).Makeable ns → ∀ n, f.node? x = some n → n.isElement = true →
        n.hasAttribute a = true ∧ ∃ name, failure = .attributeExists name a)) ∨
    ∃ n, (Step.attribute a).Makeable ns ∧ f.node? x = some n ∧ n.isElement = true ∧
      n.hasAttribute a = false ∧ addStep f (.node x) (.attribute a) ns names =
        .done (f.grow x (Node.addAttribute a) f.next) (.attribute ⟨x, a⟩) := by
  rw [addStep, addAttribute]
  cases hx : f.node? x with
  | none => exact .inl ⟨_, rfl, fun _ n hn => absurd hn (by simp)⟩
  | some n =>
    rw [Option.bind_some]
    cases he : n.element? with
    | none =>
      refine .inl ⟨_, rfl, fun _ n' hn' hel => ?_⟩
      rw [← Option.some.inj hn', Node.isElement, he] at hel
      exact absurd hel (by simp)
    | some e =>
      dsimp only
      by_cases ha : (e.attribute? ⟨none, a⟩).isSome = true
      · rw [if_pos ha]
        refine .inl ⟨_, rfl, fun _ n' hn' _ => ⟨?_, e.name, rfl⟩⟩
        rw [← Option.some.inj hn', Node.hasAttribute, he, Option.any_some]
        exact ha
      · rw [if_neg ha]
        by_cases hname : isNcName a = true
        · rw [if_pos hname]
          refine .inr ⟨n, hname, rfl, by rw [Node.isElement, he]; rfl, ?_, rfl⟩
          rw [Node.hasAttribute, he, Option.any_some]
          exact Bool.eq_false_iff.2 ha
        · rw [if_neg hname]
          exact .inl ⟨_, rfl, fun hmakeable => absurd hmakeable hname⟩

/-! ## forests in which something is made -/

namespace Forest

variable {f : Forest} {x : NodeId} {g : Node → Node} {next : NodeId}

theorem node?_eq_none_iff : f.node? x = none ↔ x ∉ f.ids := by
  rw [node?, List.find?_eq_none, ids, List.mem_map]
  simp

theorem grow_of_not_mem (hx : x ∉ f.ids) : f.grow x g next = ⟨f.trees, next⟩ := by
  have htrees : f.trees.map (fun t => { t with top := t.top.update x g }) = f.trees := by
    refine map_eq_self fun t ht => ?_
    have htop : t.top.update x g = t.top := by
      refine Node.update_of_not_mem fun hxt => hx ?_
      obtain ⟨m, hm, rfl⟩ := List.mem_map.1 hxt
      exact List.mem_map_of_mem (List.mem_flatMap.2 ⟨t, ht, hm⟩)
    rw [htop]
  exact congrArg (Forest.mk · next) htrees

theorem isElement_of_isLeaf {n : Node} (hx : f.node? x = some n) (h : f.isLeaf x = false) :
    n.isElement = true := by
  rw [isLeaf, hx, Option.any_some, Bool.not_eq_false'] at h
  exact h

theorem isLeaf_of_isElement {n : Node} (hx : f.node? x = some n) (h : n.isElement = true) :
    f.isLeaf x = false := by
  rw [isLeaf, hx, Option.any_some, h]
  rfl

/-- All nodes but those from the changed one up are found as they were, if the change keeps what is
below it. -/
theorem node?_grow_of_keeps (hgrow : (f.grow x g next).Sound) {root : NodeId} {m : Node}
    (hf : f.Sound) (hm : f.node? root = some m) (hid : ∀ n : Node, (g n).id = n.id)
    (hkeep : ∀ n d : Node, d ∈ n.nodes → d ≠ n → d ∈ (g n).nodes) :
    (f.grow x g next).node? root = some (m.update x g) := by
  by_cases hx : x ∈ m.ids
  · exact node?_grow hf hgrow hm hx fun n hn => (hid n).trans hn
  · obtain ⟨hmem, rfl⟩ := mem_of_node? hm
    have hstay : ∀ n : Node, m ∈ n.nodes → m ∈ (n.update x g).nodes := by
      intro n
      induction n using Node.recursion with
      | leaf i l t =>
        intro hmn
        by_cases hi : (Node.leaf i l t).id = x
        · rw [Node.update_self hi]
          refine hkeep _ _ hmn ?_
          rintro rfl
          exact hx (hi ▸ Node.id_mem_ids _)
        · rw [Node.update_leaf (show i ≠ x from hi)]
          exact hmn
      | element i e cs t ih =>
        intro hmn
        by_cases hi : (Node.element i e cs t).id = x
        · rw [Node.update_self hi]
          refine hkeep _ _ hmn ?_
          rintro rfl
          exact hx (hi ▸ Node.id_mem_ids _)
        · rw [Node.nodes_element, List.mem_cons, List.mem_flatMap] at hmn
          rcases hmn with rfl | ⟨c, hc, hmc⟩
          · rw [Node.update_of_not_mem hx]
            exact Node.self_mem_nodes _
          · rw [Node.update_element (show i ≠ x from hi), Node.nodes_element]
            exact List.mem_cons_of_mem _
              (List.mem_flatMap.2 ⟨_, List.mem_map_of_mem hc, ih c hc hmc⟩)
    rw [Node.update_of_not_mem hx]
    refine hgrow.node?_of_mem ?_
    rw [nodes_eq_tops, List.mem_flatMap] at hmem
    obtain ⟨c, hc, hmc⟩ := hmem
    rw [nodes_eq_tops, tops_grow]
    exact List.mem_flatMap.2 ⟨_, List.mem_map_of_mem hc, hstay c hmc⟩

/-! ## a new element -/

theorem fresh_next (hf : f.WellFormed) : f.next ∉ f.ids :=
  fun h => absurd (hf.lt_next _ h) (Nat.lt_irrefl _)

theorem putAfter_of_ne (z : Node) {cs : List Node} (h : ∀ c ∈ cs, c.id ≠ x) :
    putAfter x z cs = cs := by
  rw [putAfter, List.flatMap_congr (g := fun c => [c]) fun c hc => if_neg (h c hc),
    List.flatMap_singleton']

/-- Behind one of distinct siblings is a place among them. -/
theorem putAfter_split (z : Node) {c : Node} {cs ds : List Node}
    (h : ((cs ++ c :: ds).map Node.id).Nodup) :
    putAfter c.id z (cs ++ c :: ds) = cs ++ c :: z :: ds := by
  rw [List.map_append, List.map_cons, List.nodup_append, List.nodup_cons] at h
  obtain ⟨-, ⟨hds, -⟩, hcs⟩ := h
  have hcs' : ∀ d ∈ cs, d.id ≠ c.id := fun d hd =>
    hcs d.id (List.mem_map_of_mem hd) c.id List.mem_cons_self
  have hds' : ∀ d ∈ ds, d.id ≠ c.id := fun d hd heq => hds (heq ▸ List.mem_map_of_mem hd)
  have happ : putAfter c.id z (cs ++ c :: ds) =
      putAfter c.id z cs ++ ((if c.id = c.id then [c, z] else [c]) ++ putAfter c.id z ds) := by
    rw [putAfter, List.flatMap_append, List.flatMap_cons]
    rfl
  rw [happ, putAfter_of_ne z hcs', putAfter_of_ne z hds', if_pos rfl]
  rfl

theorem put_first (f : Forest) (z : Node) (y : NodeId) :
    f.put z (.first y) = f.grow y (Node.insertAt 0 z) (f.next + 1) := rfl

theorem put_last (hf : f.Sound) (z : Node) (y : NodeId) :
    ∃ k, f.put z (.last y) = f.grow y (Node.insertAt k z) (f.next + 1) := by
  have hput : f.put z (.last y) =
      f.grow y (Node.withChildren (· ++ [z])) (f.next + 1) := rfl
  cases hy : f.node? y with
  | none =>
    have hnot := node?_eq_none_iff.1 hy
    refine ⟨0, ?_⟩
    rw [hput, grow_of_not_mem hnot, grow_of_not_mem hnot]
  | some m =>
    refine ⟨m.children.length, ?_⟩
    rw [hput]
    refine grow_congr hf hy (Node.withChildren_congr ?_)
    rw [List.take_length, List.drop_length]

/-- Behind a child is a place among the children of its parent. -/
theorem put_behind (hf : f.Sound) (z : Node) {m c : Node} {cs ds : List Node} (hm : m ∈ f.nodes)
    (hcs : m.children = cs ++ c :: ds) :
    f.put z (.after c.id) = f.grow m.id (Node.insertAt (cs.length + 1) z) (f.next + 1) := by
  have hparent : Forest.parent? { f with next := f.next + 1 } c.id = some m :=
    hf.parent?_of_mem_children hm (by rw [hcs]; simp)
  have hfound := hf.node?_of_mem hm
  have hnodup := Node.nodup_children (hf.nodup_ids hfound)
  rw [hcs] at hnodup
  have hsplit : cs ++ c :: ds = (cs ++ [c]) ++ ds := by
    rw [List.append_assoc, List.singleton_append]
  have hlength : (cs ++ [c]).length = cs.length + 1 := by
    rw [List.length_append, List.length_singleton]
  rw [put, graft, hparent]
  refine grow_congr hf hfound (Node.withChildren_congr ?_)
  rw [hcs, putAfter_split z hnodup, hsplit, List.take_left' hlength, List.drop_left' hlength,
    List.append_assoc, List.singleton_append]

theorem put_after_child (hf : f.Sound) (z : Node) {y : NodeId} {m : Node}
    (hy : f.parent? y = some m) :
    f.isLeaf m.id = false ∧
      ∃ k, f.put z (.after y) = f.grow m.id (Node.insertAt k z) (f.next + 1) := by
  have hm := List.mem_of_find?_eq_some hy
  have hchild := List.find?_some hy
  rw [Node.hasChild, List.any_eq_true] at hchild
  obtain ⟨c, hc, hcy⟩ := hchild
  obtain rfl : c.id = y := by simpa using hcy
  have helement : m.isElement = true := by
    cases m with
    | leaf j l t => exact absurd hc (by simp [Node.children])
    | element j e cs t => rfl
  obtain ⟨cs, ds, hcs⟩ := List.append_of_mem hc
  exact ⟨isLeaf_of_isElement (hf.node?_of_mem hm) helement, _, put_behind hf z hm hcs⟩

/-- Behind a node without parent is a place in no tree. -/
theorem put_after (hf : f.Sound) (z : Node) (y : NodeId) :
    ∃ q k, f.put z (.after y) = f.grow q (Node.insertAt k z) (f.next + 1) ∧ f.isLeaf q = false := by
  cases hy : f.parent? y with
  | none =>
    have hfresh := fresh_next hf.toWellFormed
    have hparent : Forest.parent? { f with next := f.next + 1 } y = none := hy
    refine ⟨f.next, 0, ?_, ?_⟩
    · rw [put, graft, hparent, grow_of_not_mem hfresh]
    · rw [isLeaf, node?_eq_none_iff.2 hfresh]
      rfl
  | some m =>
    obtain ⟨hleaf, k, hput⟩ := put_after_child hf z hy
    exact ⟨m.id, k, hput, hleaf⟩

/-- **A new node is inserted among the children of a node that can have some**, or in no tree at
all.  At the end of its parent it is inserted there. -/
theorem put_eq_grow (hf : f.Sound) (z : Node) {p : Place} (hp : p.refusal? f = none) :
    ∃ q k, f.put z p = f.grow q (Node.insertAt k z) (f.next + 1) ∧ f.isLeaf q = false ∧
      ∀ y, p = .last y → q = y := by
  cases p with
  | first y =>
    have hleaf : f.isLeaf y = false := by simpa [Place.refusal?] using hp
    exact ⟨y, 0, put_first f z y, hleaf, fun y' hy' => absurd hy' (by simp)⟩
  | last y =>
    have hleaf : f.isLeaf y = false := by simpa [Place.refusal?] using hp
    obtain ⟨k, hput⟩ := put_last hf z y
    exact ⟨y, k, hput, hleaf, fun y' hy' => Place.last.inj hy'⟩
  | after y =>
    obtain ⟨q, k, hput, hleaf⟩ := put_after hf z y
    exact ⟨q, k, hput, hleaf, fun y' hy' => absurd hy' (by simp)⟩

theorem Sound.insert (hf : f.Sound) {q : NodeId} (hq : f.isLeaf q = false) (k : Nat)
    (s : ChildStep) (ns : Namespaces) :
    (f.grow q (Node.insertAt k (s.newNode ns f.next)) (f.next + 1)).Sound := by
  cases hm : f.node? q with
  | none =>
    rw [grow_of_not_mem (node?_eq_none_iff.1 hm)]
    exact ⟨⟨hf.nodup, fun y hy => Nat.lt_succ_of_lt (hf.lt_next y hy)⟩, hf.attributes⟩
  | some m =>
    have hmem := (mem_of_node? hm).1
    have hids := Node.ids_insertAt (k := k) (z := s.newNode ns f.next) (isElement_of_isLeaf hm hq)
    rw [Node.ids_newNode] at hids
    refine hf.grow hm hids (List.nodup_singleton _) (fun y hy => ?_) (Nat.le_succ _)
      (Node.attributes_insertAt (Node.attributes_newNode s ns f.next) fun m' hm' =>
        hf.attributes m' ((nodes_sublist_of_mem hmem).subset hm'))
    rw [List.mem_singleton.1 hy]
    exact ⟨Nat.le_refl _, Nat.lt_succ_self _⟩

theorem node?_insert (hf : f.Sound) {q : NodeId} (hq : f.isLeaf q = false) (k : Nat)
    (s : ChildStep) (ns : Namespaces) {root : NodeId} {m : Node} (hm : f.node? root = some m) :
    (f.grow q (Node.insertAt k (s.newNode ns f.next)) (f.next + 1)).node? root =
      some (m.update q (Node.insertAt k (s.newNode ns f.next))) :=
  node?_grow_of_keeps (hf.insert hq k s ns) hf hm (fun _ => Node.id_insertAt _ _ _)
    fun _ _ hd hne => Node.nodes_insertAt_subset hd hne

/-- The new element is found. -/
theorem node?_inserted (hf : f.Sound) {n : Node} (hx : f.node? x = some n)
    (hn : n.isElement = true) (k : Nat) (s : ChildStep) (ns : Namespaces) :
    (f.grow x (Node.insertAt k (s.newNode ns f.next)) (f.next + 1)).node? f.next =
      some (s.newNode ns f.next) := by
  have hleaf := isLeaf_of_isElement hx hn
  have hparent := (mem_of_node? (node?_insert hf hleaf k s ns hx)).1
  rw [Node.update_self (mem_of_node? hx).2] at hparent
  have hchild : s.newNode ns f.next ∈ (Node.insertAt k (s.newNode ns f.next) n).children := by
    rw [Node.children_insertAt hn]
    exact List.mem_append_right _ List.mem_cons_self
  exact (hf.insert hleaf k s ns).node?_of_mem (mem_nodes_of_mem_children hparent hchild)

/-! ## a new attribute -/

theorem Sound.addAttribute (hf : f.Sound) {n : Node} (hx : f.node? x = some n)
    (hn : n.isElement = true) {a : String} (ha : n.hasAttribute a = false) :
    (f.grow x (Node.addAttribute a) f.next).Sound := by
  have hsame : f.grow x (Node.addAttribute a) f.next = f.extend [] x [.attribute a] := by
    refine grow_congr hf hx ?_
    rw [Node.extend, ha, if_neg (by simp)]
    rfl
  rw [hsame]
  exact hf.extend [] hx hn [.attribute a]

theorem node?_addAttribute (hf : f.Sound) {n : Node} (hx : f.node? x = some n)
    (hn : n.isElement = true) {a : String} (ha : n.hasAttribute a = false) {root : NodeId}
    {m : Node} (hm : f.node? root = some m) :
    (f.grow x (Node.addAttribute a) f.next).node? root =
      some (m.update x (Node.addAttribute a)) :=
  node?_grow_of_keeps (hf.addAttribute hx hn ha) hf hm (fun _ => Node.id_addAttribute _ _)
    fun _ _ hd hne => Node.nodes_addAttribute_subset hd hne

end Forest

end XmlPaths

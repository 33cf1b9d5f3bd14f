import XmlPaths.Proofs.Build.Additions
import XmlPaths.Proofs.Build.Repetition
import XmlPaths.Proofs.Tree.Replicas

/-!
# Building on a copy

A copy of a node is built on as the node itself would be: the lookups find the counterparts of what
they find from the node, and the counterparts of the same things are made.  The copy has lost what
is around the node, its ancestors and its tail, which paths don't look at.

* `Node.walk_replica`        what steps lead to from a copy;
* `Mirrored`                 a node and its copy, with the forests that they are in;
* `Mirrored.addStep`         one turn on both;
* `Mirrored.follow`          a run on both;
* `ensure_copies`            the tree that was given stays as it is, the copy is built on.
-/

namespace XmlPaths

/-! ## walking on copies -/

/-- a member of a selection, with another identity for its owner -/
def Selected.mapId (φ : NodeId → NodeId) : Selected → Selected
  | .node x => .node (φ x)
  | .attribute h => .attribute ⟨φ h.element, h.universalName⟩
  | .text s => .text s

namespace Node

variable (φ : NodeId → NodeId) (ns : Namespaces)

theorem childrenAt_mapIds (n : Node) (s : ChildStep) :
    (n.mapIds φ).childrenAt ns s = (n.childrenAt ns s).map (mapIds φ) := by
  have hfits : fits ns s ∘ mapIds φ = fits ns s :=
    funext fun c => fits_congr ns (element?_mapIds φ c) s
  rw [childrenAt, childrenAt, children_mapIds, List.filter_map, hfits]

theorem hasAttribute_congr {m n : Node} (h : m.element? = n.element?) (a : String) :
    m.hasAttribute a = n.hasAttribute a := by
  rw [hasAttribute, hasAttribute, h]

theorem walk_mapIds (steps : List Step) (n : Node) :
    (n.mapIds φ).walk ns steps = (n.walk ns steps).map (Selected.mapId φ) := by
  induction steps generalizing n with
  | nil =>
    rw [walk, walk, id_mapIds]
    rfl
  | cons s rest ih =>
    cases s with
    | element s =>
      rw [walk, walk, childrenAt_mapIds, List.flatMap_map, List.map_flatMap]
      exact List.flatMap_congr fun c _ => ih c
    | «attribute» a =>
      rw [walk, walk, hasAttribute_congr (element?_mapIds φ n), id_mapIds]
      split <;> rfl

/-- What steps lead to from a copy are the counterparts of what they lead to from the node. -/
theorem walk_replica (steps : List Step) (n : Node) :
    (n.replica φ).walk ns steps = (n.walk ns steps).map (Selected.mapId φ) := by
  rw [replica, walk_withTail, walk_mapIds]

end Node

/-! ## a node and its copy -/

open Node

/-- The node `n` of one forest has a copy in another one, with identities that `φ` tells. -/
structure Mirrored (φ : NodeId → NodeId) (f : Forest) (root : NodeId) (n : Node) (g : Forest)
    (copy : NodeId) : Prop where
  sound : f.Sound
  node : f.node? root = some n
  soundCopy : g.Sound
  nodeCopy : g.node? copy = some (n.replica φ)

namespace Mirrored

variable {φ : NodeId → NodeId} {f g : Forest} {root copy : NodeId} {n : Node}
  (h : Mirrored φ f root n g copy)
include h

theorem inj {i j : NodeId} (hi : i ∈ n.ids) (hj : j ∈ n.ids) (hij : φ i = φ j) : i = j := by
  have hnodup := h.soundCopy.nodup_ids h.nodeCopy
  rw [ids_replica] at hnodup
  exact List.inj_on_of_nodup_map hnodup hi hj hij

theorem exists_node? {x : NodeId} (hx : x ∈ n.ids) :
    ∃ d d', d ∈ n.nodes ∧ f.node? x = some d ∧ g.node? (φ x) = some d' ∧
      d'.element? = d.element? := by
  obtain ⟨d, hd, rfl⟩ := List.mem_map.1 hx
  obtain ⟨d', hd', hid, hsame⟩ := exists_mem_replica φ hd
  refine ⟨d, d', hd, ?_, ?_, hsame⟩
  · exact h.sound.node?_of_mem
      ((Forest.nodes_sublist_of_mem (Forest.mem_of_node? h.node).1).subset hd)
  · rw [← hid]
    exact h.soundCopy.node?_of_mem
      ((Forest.nodes_sublist_of_mem (Forest.mem_of_node? h.nodeCopy).1).subset hd')

end Mirrored

/-! ## one turn -/

namespace Forest

/-- A new element at the end of a node is found below all nodes above it. -/
theorem node?_put_last {f : Forest} (hf : f.Sound) {x : NodeId} (hx : f.isLeaf x = false)
    (s : ChildStep) (ns : Namespaces) {root : NodeId} {m : Node} (hm : f.node? root = some m) :
    (f.put (s.newNode ns f.next) (.last x)).Sound ∧
      (f.put (s.newNode ns f.next) (.last x)).node? root =
        some (m.update x (spread ns f.next [.element s])) := by
  have hplace : Place.refusal? f (.last x) = none := by
    rw [Place.refusal?, hx, if_neg (by simp)]
  obtain ⟨q, k, hput, hq, -⟩ := put_eq_grow hf (s.newNode ns f.next) hplace
  have hsound := hf.insert hq k s ns
  have hgrow : f.put (s.newNode ns f.next) (.last x) =
      f.grow x (spread ns f.next [.element s]) (f.next + 1) := rfl
  rw [← hput, hgrow] at hsound
  rw [hgrow]
  refine ⟨hsound, node?_grow_of_keeps hsound hf hm (id_spread ns f.next _) fun d c hc hne => ?_⟩
  rw [spread_element]
  exact nodes_insertAt_subset hc hne

end Forest

namespace Node

theorem spread_mapIds {φ ψ : NodeId → NodeId} (ns : Namespaces) (s : ChildStep) {i j : NodeId}
    {m : Node} (hψ : ∀ y ∈ m.ids, ψ y = φ y) (hi : ψ i = j) :
    (m.mapIds φ).spread ns j [.element s] = (m.spread ns i [.element s]).mapIds ψ := by
  cases m with
  | leaf y l t =>
    show (Node.leaf y l t).mapIds φ = (Node.leaf y l t).mapIds ψ
    exact mapIds_congr hψ
  | element y e cs t =>
    rw [ids_element] at hψ
    have hcs : cs.map (mapIds φ) = cs.map (mapIds ψ) := List.map_congr_left fun c hc =>
      mapIds_congr fun z hz => hψ z (List.mem_cons_of_mem _ (List.mem_flatMap.2 ⟨c, hc, hz⟩))
    have hnew : (s.newNode ns i).mapIds ψ = s.newNode ns j := by
      rw [ChildStep.newNode, mapIds_element, hi]
      rfl
    rw [mapIds_element, hcs, ← hψ y List.mem_cons_self]
    show Node.element (ψ y) e (cs.map (mapIds ψ) ++ [s.newNode ns j]) t =
      (Node.element y e (cs ++ [s.newNode ns i]) t).mapIds ψ
    rw [mapIds_element, List.map_append, List.map_singleton, hnew]

/-- What a changed node holds is below the nodes above it. -/
theorem mem_ids_update {n d : Node} (hn : n.ids.Nodup) (hd : d ∈ n.nodes) {g : Node → Node}
    {i : NodeId} (hi : i ∈ (g d).ids) : i ∈ (n.update d.id g).ids := by
  have hmem := mem_nodes_update (g := g) hn hd d.id_mem_ids
  rw [update_self rfl] at hmem
  exact ids_subset_of_mem hmem hi

theorem addAttribute_mapIds (φ : NodeId → NodeId) (a : String) (m : Node) :
    (m.mapIds φ).addAttribute a = (m.addAttribute a).mapIds φ := by
  cases m with
  | leaf y l t => rw [mapIds_leaf]; rfl
  | element y e cs t =>
    rw [mapIds_element]
    show _ = (Node.element y _ cs t).mapIds φ
    rw [mapIds_element]
    rfl

end Node

namespace Mirrored

variable {φ : NodeId → NodeId} {f g : Forest} {root copy : NodeId} {n : Node}
  (h : Mirrored φ f root n g copy) {ns : Namespaces} {x : NodeId} (hx : x ∈ n.ids)
include h hx

/-- **A turn for an element** that something is made in on the copy makes its counterpart on the
node. -/
theorem addStep_element {s : ChildStep} {made' : Selected}
    (hmade : (addStep g (.node (φ x)) (.element s) ns none).result = .ok made') :
    ∃ ψ m made, (addStep f (.node x) (.element s) ns none).result = .ok made ∧
      made' = made.mapId ψ ∧ made.owner ∈ m.ids ∧
      Mirrored ψ (addStep f (.node x) (.element s) ns none).forest root m
        (addStep g (.node (φ x)) (.element s) ns none).forest copy := by
  obtain ⟨d, d', hd, hfd, hgd, hsame⟩ := h.exists_node? hx
  rcases XmlPaths.addStep_element g (φ x) s ns none with ⟨conflicts, failure, hstep', -⟩ |
    ⟨p', hmakeable, hp', hfree', hstep'⟩
  · rw [hstep'] at hmade
    exact absurd hmade (by simp)
  obtain rfl := Except.ok.inj hp'
  have hleaf' : g.isLeaf (φ x) = false := by
    rw [Forest.Place.refusal?] at hfree'
    by_contra hleaf
    rw [if_pos (Bool.of_not_eq_false hleaf)] at hfree'
    exact absurd hfree' (by simp)
  have hel : d.isElement = true := by
    have hel' := Forest.isElement_of_isLeaf hgd hleaf'
    rwa [isElement, hsame] at hel'
  have hleaf := Forest.isLeaf_of_isElement hfd hel
  rcases XmlPaths.addStep_element f x s ns none with ⟨conflicts, failure, -, hfail⟩ |
    ⟨p, -, hp, -, hstep⟩
  · refine absurd ?_ (hfail hmakeable (.last x) rfl)
    rw [Forest.Place.refusal?, hleaf, if_neg (by simp)]
  obtain rfl := Except.ok.inj hp
  have hids := (Forest.nodes_sublist_of_mem (Forest.mem_of_node? h.node).1).map Node.id
  have hnew : f.next ∉ n.ids := fun hmem =>
    Forest.fresh_next h.sound.toWellFormed (hids.subset hmem)
  have hold : ∀ y ∈ n.ids, Function.update φ f.next g.next y = φ y := fun y hy =>
    Function.update_of_ne (fun heq : y = f.next => hnew (heq ▸ hy)) _ _
  obtain ⟨hsound, hnode⟩ := Forest.node?_put_last h.sound hleaf s ns h.node
  obtain ⟨hsound', hnode'⟩ := Forest.node?_put_last h.soundCopy hleaf' s ns h.nodeCopy
  have hupdate : (n.replica φ).update (φ x) (spread ns g.next [.element s]) =
      (n.update x (spread ns f.next [.element s])).replica (Function.update φ f.next g.next) := by
    refine update_replica (fun i hi hix => h.inj hi hx hix) hold (fun m hm _ => ?_) fun m => ?_
    · exact spread_mapIds ns s (fun y hy => hold y (ids_subset_of_mem hm hy))
        (Function.update_self _ _ _)
    · cases m <;> rfl
  rw [hupdate] at hnode'
  rw [hstep'] at hmade ⊢
  rw [hstep]
  refine ⟨_, _, .node f.next, rfl, ?_, ?_, hsound, hnode, hsound', hnode'⟩
  · rw [← Except.ok.inj hmade, Selected.mapId, Function.update_self]
  · obtain rfl := (Forest.mem_of_node? hfd).2
    refine mem_ids_update (h.sound.nodup_ids h.node) hd ?_
    rw [spread_element, (ids_insertAt hel).mem_iff, spread, ids_newNode]
    exact List.mem_append_left _ List.mem_cons_self

/-- **A turn for an attribute** likewise. -/
theorem addStep_attribute {a : String} {made' : Selected}
    (hmade : (addStep g (.node (φ x)) (.attribute a) ns none).result = .ok made') :
    ∃ m made, (addStep f (.node x) (.attribute a) ns none).result = .ok made ∧
      made' = made.mapId φ ∧ made.owner ∈ m.ids ∧
      Mirrored φ (addStep f (.node x) (.attribute a) ns none).forest root m
        (addStep g (.node (φ x)) (.attribute a) ns none).forest copy := by
  obtain ⟨d, d', hd, hfd, hgd, hsame⟩ := h.exists_node? hx
  rcases XmlPaths.addStep_attribute g (φ x) a ns none with ⟨failure, hstep', -⟩ |
    ⟨d₁, hmakeable, hd₁, hel', hnew', hstep'⟩
  · rw [hstep'] at hmade
    exact absurd hmade (by simp [Outcome.fail])
  obtain rfl := Option.some.inj (hgd.symm.trans hd₁)
  have hel : d.isElement = true := by rwa [isElement, hsame] at hel'
  have hnew : d.hasAttribute a = false := by rwa [hasAttribute_congr hsame] at hnew'
  rcases XmlPaths.addStep_attribute f x a ns none with ⟨failure, -, hfail⟩ |
    ⟨d₂, -, hd₂, -, -, hstep⟩
  · have hthere := (hfail hmakeable d hfd hel).1
    rw [hnew] at hthere
    exact absurd hthere (by simp)
  have hsound := h.sound.addAttribute hfd hel hnew
  have hsound' := h.soundCopy.addAttribute hgd hel' hnew'
  have hnode := Forest.node?_addAttribute h.sound hfd hel hnew h.node
  have hnode' := Forest.node?_addAttribute h.soundCopy hgd hel' hnew' h.nodeCopy
  have hupdate : (n.replica φ).update (φ x) (Node.addAttribute a) =
      (n.update x (Node.addAttribute a)).replica φ := by
    refine update_replica (fun i hi hix => h.inj hi hx hix) (fun _ _ => rfl) (fun m _ _ => ?_)
      fun m => ?_
    · exact addAttribute_mapIds φ a m
    · cases m <;> rfl
  rw [hupdate] at hnode'
  rw [hstep'] at hmade ⊢
  rw [hstep]
  refine ⟨_, .attribute ⟨x, a⟩, rfl, (Except.ok.inj hmade).symm, ?_, hsound, hnode, hsound',
    hnode'⟩
  obtain rfl := (Forest.mem_of_node? hfd).2
  refine mem_ids_update (h.sound.nodup_ids h.node) hd ?_
  rw [← id_addAttribute a d]
  exact id_mem_ids _

omit hx in
/-- **A turn that makes something on the copy** makes its counterpart on the node. -/
theorem addStep {context : Selected} (hcontext : context.owner ∈ n.ids) {step : Step}
    {made' : Selected} (hmade : (addStep g (context.mapId φ) step ns none).result = .ok made') :
    ∃ ψ m made, (XmlPaths.addStep f context step ns none).result = .ok made ∧
      made' = made.mapId ψ ∧ made.owner ∈ m.ids ∧
      Mirrored ψ (XmlPaths.addStep f context step ns none).forest root m
        (XmlPaths.addStep g (context.mapId φ) step ns none).forest copy := by
  cases context with
  | «attribute» y => exact absurd hmade (by simp [Selected.mapId, XmlPaths.addStep, Outcome.fail])
  | text t => exact absurd hmade (by simp [Selected.mapId, XmlPaths.addStep, Outcome.fail])
  | node x =>
    cases step with
    | element s => exact h.addStep_element hcontext hmade
    | «attribute» a => exact ⟨φ, h.addStep_attribute hcontext hmade⟩

end Mirrored

/-! ## a run -/

/-- **A run that ends with a result on the copy** ends with its counterpart on the node, and leaves
a copy of what it leaves there. -/
theorem Mirrored.follow {bs : List (String × Step)} {pre : List Step} {root copy : NodeId}
    {ns : Namespaces} (hread : Selecting root ns pre bs) (hread' : Selecting copy ns pre bs)
    {φ : NodeId → NodeId} {f g : Forest} {n : Node} (h : Mirrored φ f root n g copy)
    {context : Selected} (hcontext : context.owner ∈ n.ids) {built' : Selected}
    (hbuilt : (follow ⟨copy, ns, .reuse⟩ g (context.mapId φ) none bs).result = .ok built') :
    ∃ ψ m built, (follow ⟨root, ns, .reuse⟩ f context none bs).result = .ok built ∧
      Mirrored ψ (XmlPaths.follow ⟨root, ns, .reuse⟩ f context none bs).forest root m
        (XmlPaths.follow ⟨copy, ns, .reuse⟩ g (context.mapId φ) none bs).forest copy := by
  induction bs generalizing pre φ f g n context built' with
  | nil => exact ⟨φ, n, context, rfl, h⟩
  | cons b bs ih =>
    obtain ⟨c, s⟩ := b
    have hselect := hread.head h.sound h.node
    have hselect' := hread'.head h.soundCopy h.nodeCopy
    rw [walk_replica] at hselect'
    cases hwalk : n.walk ns (pre ++ [s]) with
    | cons r rs =>
      rw [hwalk] at hselect hselect'
      rw [follow_of_found _ _ _ _ hselect'] at hbuilt ⊢
      rw [follow_of_found _ _ _ _ hselect]
      refine ih hread.tail hread'.tail h ?_ hbuilt
      refine (map_owner_walk_sublist ns (pre ++ [s]) n).subset (List.mem_map_of_mem ?_)
      rw [hwalk]
      exact List.mem_cons_self
    | nil =>
      rw [hwalk] at hselect hselect'
      rw [follow_of_missing _ _ _ _ hselect'] at hbuilt ⊢
      rw [follow_of_missing _ _ _ _ hselect]
      obtain ⟨made', hmade', hrest, hforest⟩ := Outcome.exists_of_andThen hbuilt
      obtain ⟨ψ, m, made, hmade, rfl, howner, hmirrored⟩ := h.addStep hcontext hmade'
      obtain ⟨χ, m', built, hresult, hmirrored'⟩ :=
        ih hread.tail hread'.tail hmirrored howner hrest
      refine ⟨χ, m', built, ?_, ?_⟩
      · rw [Outcome.result_andThen_of_ok _ hmade, hresult]
      · rw [hforest, Outcome.forest_andThen_of_ok _ hmade]
        exact hmirrored'

/-! ## building on a copy -/

section
variable {e : String} {p : Path} (hp : Path.parse e = .ok p) {ns : Namespaces}
include hp

theorem Legible.selecting (h : Legible ns e p.steps) (root : NodeId) :
    Selecting root ns [] p.beginnings :=
  fun _ _ _ _ hb f n hf hn => h.readable_beginning hp hb f root n hf hn

variable {φ : NodeId → NodeId} {f g : Forest} {root copy : NodeId} {n : Node}
  (h : Mirrored φ f root n g copy)
include h

/-- **What is built on the copy is a copy of what is built on the node.** -/
theorem Mirrored.buildPath {built' : Selected}
    (hbuilt : (buildPath ⟨copy, ns, .reuse⟩ g p none).result = .ok built') :
    ∃ ψ m built, (XmlPaths.buildPath ⟨root, ns, .reuse⟩ f p none).result = .ok built ∧
      (XmlPaths.buildPath ⟨root, ns, .reuse⟩ f p none).forest.node? root = some m ∧
      (XmlPaths.buildPath ⟨copy, ns, .reuse⟩ g p none).forest.node? copy = some (m.replica ψ) := by
  obtain ⟨-, hlegible, m', rs, hm', hwalk', -⟩ := walk_of_buildPath hp h.soundCopy h.nodeCopy hbuilt
  obtain ⟨run', hrun', -, -⟩ := Outcome.exists_of_andThen hbuilt
  have hroot := (Forest.mem_of_node? h.node).2
  have hcopy : .node copy = (Selected.node root).mapId φ := by
    rw [Selected.mapId, ← hroot, ← id_replica φ n, (Forest.mem_of_node? h.nodeCopy).2]
  have howner : (Selected.node root).owner ∈ n.ids := hroot ▸ n.id_mem_ids
  rw [forest_buildPath] at hm'
  dsimp only at hm' hrun'
  rw [hcopy] at hrun' hm'
  obtain ⟨ψ, m, built, hresult, hmirrored⟩ := h.follow (hlegible.selecting hp root)
    (hlegible.selecting hp copy) howner hrun'
  obtain rfl := Option.some.inj (hm'.symm.trans hmirrored.nodeCopy)
  have hselect := hlegible.readable_of_parse hp _ root m hmirrored.sound hmirrored.node
  cases hwalk : m.walk ns p.steps with
  | nil =>
    rw [walk_replica, hwalk] at hwalk'
    exact absurd hwalk' (by simp)
  | cons r rs =>
    rw [hwalk] at hselect
    refine ⟨ψ, m, built, ?_, ?_, ?_⟩
    · rw [XmlPaths.buildPath, Outcome.result_andThen_of_ok _ hresult, confirm,
        expression_of_parse hp]
      dsimp only
      rw [hselect]
      rfl
    · rw [forest_buildPath]
      exact hmirrored.node
    · rw [forest_buildPath]
      dsimp only
      rw [hcopy]
      exact hmirrored.nodeCopy

end

/-! ## the copy beside the tree that was given -/

/-- What is added to the last tree leaves the others as they are. -/
theorem Addition.exists_trees_make {a : Addition} {g : Forest} {trees : List Tree} {t : Tree}
    (htrees : g.trees = trees ++ [t]) (hplace : ∀ q ∈ a.place?, ∀ s ∈ trees, q ∉ s.top.ids) :
    ∃ c, c.id = t.top.id ∧ (a.make g).trees = trees ++ [⟨t.document, t.attached, c⟩] := by
  have hupdate : ∀ q h, (∀ m : Node, (h m).id = m.id) → q ∈ a.place? → ∃ c, c.id = t.top.id ∧
      (g.update q h).trees = trees ++ [⟨t.document, t.attached, c⟩] := by
    intro q h hid hq
    refine ⟨t.top.update q h, id_update (fun m hm => (hid m).trans hm) t.top, ?_⟩
    have hstay : trees.map (fun s => { s with top := s.top.update q h }) = trees :=
      map_eq_self fun s hs => congrArg (Tree.mk s.document s.attached)
        (update_of_not_mem (hplace q hq s hs))
    rw [Forest.update, htrees, List.map_append, hstay]
    rfl
  cases a with
  | nothing => exact ⟨t.top, rfl, htrees⟩
  | branch q k top => exact hupdate q _ (id_insertAt k top) rfl
  | «attribute» q a => exact hupdate q _ (id_addAttribute a) rfl

/-- What the copy `c` of a node of `f` is, on which an expression was built. -/
structure BuiltCopy (f : Forest) (root : NodeId) (ns : Namespaces) (e : String) (f' : Forest)
    (c : Node) : Prop where
  /-- it is the root of a new document -/
  trees : f'.trees = f.trees ++ [⟨f.next, true, c⟩]
  parent : f'.parent? c.id = none
  tail : c.tail = none
  fresh : ∀ y ∈ c.ids, y ∉ f.ids
  /-- it holds what the node itself holds when the expression is built there -/
  content : ∃ φ m built, (build ⟨root, ns, .reuse⟩ f e).result = .ok built ∧
    (build ⟨root, ns, .reuse⟩ f e).forest.node? root = some m ∧ c = m.replica φ
  selected : ∃ r, selectFrom f' c.id e ns = .ok [r]
  again : ensure f' c.id ns e = .done f' c.id

theorem ensure_of_found {e : String} {p : Path} (hp : Path.parse e = .ok p) {f : Forest}
    {root : NodeId} {ns : Namespaces} {r : Selected} {rs : List Selected}
    (h : selectFrom f root e ns = .ok (r :: rs)) : ensure f root ns e = .done f root := by
  rw [ensure, hp]
  dsimp only
  rw [h]

section
variable {f : Forest} (hf : f.Sound) {root : NodeId} {n : Node} (hn : f.node? root = some n)
  {ns : Namespaces} {e : String} {p : Path} (hp : Path.parse e = .ok p)
  (hselect : selectFrom f root e ns = .ok [])
include hf hn hp hselect

omit hf in
/-- If nothing is found, a copy is planted, and the expression is built there. -/
theorem ensure_of_missing :
    ensure f root ns e =
      (buildPath ⟨f.next, ns, .reuse⟩ (f.plant (n.withTail none)).1 p none).andThen
        fun f' _ => .done f' f.next := by
  have hcopy : f.copy root = some ((f.plant (n.withTail none)).1, f.next) := by
    rw [Forest.copy, hn]
    rfl
  rw [ensure, hp]
  dsimp only
  rw [hselect, hcopy]

theorem exists_trees_ensure : ∃ c, c.id = f.next ∧
    (ensure f root ns e).forest.trees = f.trees ++ [⟨f.next, true, c⟩] := by
  obtain ⟨φ, -, htrees, hsound, hnode⟩ := hf.plant hn
  have hlast : XPath.AttributeLast (p.beginnings.map Prod.snd) := by
    rw [p.map_snd_beginnings]
    exact Path.attributeLast hp
  obtain ⟨a, -, hplace, hadded⟩ :=
    follow_adds .reuse (readAs_beginnings hp ns) hlast hsound hnode none
  obtain ⟨c, hid, hmake⟩ := a.exists_trees_make htrees fun q hq =>
    hsound.not_mem_of_last htrees (hplace rfl q hq)
  rw [← forest_buildPath] at hadded
  rw [ensure_of_missing hn hp hselect, Outcome.forest_andThen_done, hadded, hmake]
  exact ⟨c, hid.trans (Forest.mem_of_node? hnode).2, rfl⟩

/-- What is returned then is a copy on which the expression was built. -/
theorem exists_builtCopy {f' : Forest} {conflicts : List Conflict} {x : NodeId}
    (h : ensure f root ns e = ⟨f', conflicts, .ok x⟩) :
    x = f.next ∧ ∃ c, c.id = x ∧ BuiltCopy f root ns e f' c := by
  obtain ⟨c, hid, htrees⟩ := exists_trees_ensure hf hn hp hselect
  rw [h] at htrees
  dsimp only at htrees
  obtain ⟨φ, -, -, hsound, hnode⟩ := hf.plant hn
  have hensure := (ensure_of_missing hn hp hselect).symm.trans h
  obtain ⟨built', hbuilt, hx, hforest⟩ :=
    Outcome.exists_of_andThen (congrArg Outcome.result hensure)
  rw [hensure] at hforest
  obtain rfl : f.next = x := Except.ok.inj hx
  have hforest' : f' =
      (buildPath ⟨f.next, ns, .reuse⟩ (f.plant (n.withTail none)).1 p none).forest := hforest
  have hmirrored : Mirrored φ f root n (f.plant (n.withTail none)).1 f.next :=
    ⟨hf, hn, hsound, hnode⟩
  obtain ⟨ψ, m, built, hresult, hm, hcopy⟩ := hmirrored.buildPath hp hbuilt
  obtain ⟨hsound', hlegible, m', rs, hm', hwalk, honly⟩ :=
    walk_of_buildPath hp hsound hnode hbuilt
  obtain rfl := Option.some.inj (hm'.symm.trans hcopy)
  rw [← hforest'] at hsound' hcopy honly
  have hreadable := hlegible.readable_of_parse hp
  have hchanged : f' ≠ (f.plant (n.withTail none)).1 := by
    intro hsame
    have hnone := hreadable f root n hf hn
    rw [hselect, Except.ok.injEq] at hnone
    rw [hsame] at hcopy
    rw [← Option.some.inj (hnode.symm.trans hcopy), walk_replica, ← hnone] at hwalk
    exact absurd hwalk (by simp)
  have hfound := hreadable f' f.next _ hsound' hcopy
  rw [hwalk, honly hchanged] at hfound
  have hmem : c ∈ f'.nodes := by
    rw [Forest.nodes, htrees, List.flatMap_append, List.flatMap_singleton]
    exact List.mem_append_right _ c.self_mem_nodes
  have hlast : ⟨f.next, true, c⟩ ∈ f'.trees := by
    rw [htrees]
    exact List.mem_append_right _ List.mem_cons_self
  have hc := hsound'.node?_of_mem hmem
  rw [hid, hcopy, Option.some.injEq] at hc
  refine ⟨rfl, c, hid, htrees, hsound'.parent?_top hlast, ?_, ?_, ?_, ?_, ?_⟩
  · rw [← hc]
    exact tail_replica ψ m
  · intro y hy hyf
    obtain ⟨s, hs, hys⟩ := Forest.mem_ids_iff.1 hyf
    exact hsound'.not_mem_of_last htrees hy s hs hys
  · rw [build_of_parse hp]
    exact ⟨ψ, m, built, hresult, hm, hc.symm⟩
  · rw [hid]
    exact ⟨_, hfound⟩
  · rw [hid]
    exact ensure_of_found hp hfound

end

/-- **The tree that was given is never changed.**  If there is a result, it is the node itself if
and only if the expression selects something from it; otherwise it is a copy on which the expression
was built. -/
theorem ensure_copies {f : Forest} (hf : f.Sound) {root : NodeId} {n : Node}
    (hn : f.node? root = some n) (ns : Namespaces) (e : String) :
    f.trees <+: (ensure f root ns e).forest.trees ∧
    ∀ {f' conflicts x}, ensure f root ns e = ⟨f', conflicts, .ok x⟩ →
      (x = root ↔ ∃ r rs, selectFrom f root e ns = .ok (r :: rs)) ∧
      (x = root → f' = f) ∧
      (x ≠ root → ∃ c, c.id = x ∧ BuiltCopy f root ns e f' c) := by
  cases hp : Path.parse e with
  | error failure =>
    have hfail : ensure f root ns e = .fail f (.path failure) := by rw [ensure, hp]
    rw [hfail]
    exact ⟨List.prefix_rfl, fun h => absurd (congrArg Outcome.result h) (by simp [Outcome.fail])⟩
  | ok p =>
    cases hselect : selectFrom f root e ns with
    | error failure =>
      have hfail : ensure f root ns e = .fail f failure := by
        rw [ensure, hp]
        dsimp only
        rw [hselect]
      rw [hfail]
      exact ⟨List.prefix_rfl, fun h => absurd (congrArg Outcome.result h) (by simp [Outcome.fail])⟩
    | ok rs =>
      cases rs with
      | cons r rs =>
        rw [ensure_of_found hp hselect]
        refine ⟨List.prefix_rfl, fun {f' conflicts x} h => ?_⟩
        obtain rfl : root = x := Except.ok.inj (congrArg Outcome.result h)
        refine ⟨⟨fun _ => ⟨r, rs, rfl⟩, fun _ => rfl⟩, fun _ => ?_, fun hne => absurd rfl hne⟩
        exact (congrArg Outcome.forest h).symm
      | nil =>
        obtain ⟨c, -, htrees⟩ := exists_trees_ensure hf hn hp hselect
        refine ⟨htrees ▸ List.prefix_append _ _, fun {f' conflicts x} h => ?_⟩
        obtain ⟨rfl, hbuilt⟩ := exists_builtCopy hf hn hp hselect h
        have hne : f.next ≠ root := fun heq =>
          Forest.fresh_next hf.toWellFormed (heq ▸ Forest.mem_ids_of_node? hn)
        refine ⟨⟨fun heq => absurd heq hne, ?_⟩, fun heq => absurd heq hne, fun _ => hbuilt⟩
        rintro ⟨r, rs, hrs⟩
        exact absurd hrs (by simp)

/-- An element that holds what is asked for, and one that gets it on a copy. -/
theorem ensure_copies_operatorNames :
    (∃ f' conflicts, ensure operatorNames 2 [] "div" = ⟨f', conflicts, .ok 2⟩ ∧
      f' = operatorNames) ∧
    ∃ f' conflicts c, ensure operatorNames 2 [] "div[@k='v']/@k" = ⟨f', conflicts, .ok 6⟩ ∧
      f'.ids = operatorNames.ids ++ [6, 7, 8] ∧ c.id = 6 ∧
      BuiltCopy operatorNames 2 [] "div[@k='v']/@k" f' c := by
  have hroot : operatorNames.node? 2 = some _ := rfl
  constructor
  · obtain ⟨f', conflicts, hensure, -⟩ := Outcome.exists_eq_ok
      (show (ensure operatorNames 2 [] "div").result.toOption = some 2 by decide +kernel)
    exact ⟨f', conflicts, hensure,
      ((ensure_copies sound_operatorNames hroot _ _).2 hensure).2.1 rfl⟩
  · obtain ⟨f', conflicts, hensure, hf'⟩ := Outcome.exists_eq_ok
      (show (ensure operatorNames 2 [] "div[@k='v']/@k").result.toOption = some 6 by
        decide +kernel)
    obtain ⟨c, hid, hc⟩ :=
      ((ensure_copies sound_operatorNames hroot _ _).2 hensure).2.2 (by decide)
    exact ⟨f', conflicts, c, hensure, by rw [hf']; decide +kernel, hid, hc⟩

end XmlPaths

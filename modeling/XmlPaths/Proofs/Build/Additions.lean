import XmlPaths.Proofs.Build.Continuation

/-!
# What a run adds, and taking it back

Whether a run ends with a result or a failure, what it left is the forest that it began with and at
most one thing more: a chain of new elements for consecutive steps, each of them the only child of
the one before, or an empty attribute that an element didn't have.  Without the new thing the forest
is what it was.

* `Node.spread`            a node with what steps describe, feasible or not;
* `follow_anew_spread`     a run that makes everything anew extends one node;
* `Addition`               what a run may add: `make` adds it, `unmake` takes it back;
* `Addition.unmake_make`   what is taken back leaves no trace;
* `follow_adds`            a run adds at most one thing;
* `exists_addition_of_build`   and so does building.
-/

namespace XmlPaths

open Node

/-! ## chains of new elements -/

/-- The node with what the steps describe: a chain of new elements behind its children, with
identities from `i` on, or an attribute without a value. -/
def Node.spread (ns : Namespaces) (i : NodeId) : List Step → Node → Node
  | [], n => n
  | .element s :: rest, n =>
    n.withChildren (· ++ [Node.spread ns (i + 1) rest (s.newNode ns i)])
  | .attribute a :: _, n => n.addAttribute a

namespace Node

@[simp] theorem id_spread (ns : Namespaces) (i : NodeId) (steps : List Step) (n : Node) :
    (n.spread ns i steps).id = n.id := by
  cases steps with
  | nil => rfl
  | cons s rest =>
    cases s with
    | element s => exact id_withChildren _ n
    | «attribute» a => exact id_addAttribute a n

/-- The elements of the chain are new. -/
theorem ids_spread (ns : Namespaces) (i : NodeId) (steps : List Step) (n : Node) {y : NodeId}
    (hy : y ∈ (n.spread ns i steps).ids) : y ∈ n.ids ∨ i ≤ y := by
  induction steps generalizing i n with
  | nil => exact .inl hy
  | cons s rest ih =>
    cases n with
    | leaf j l t =>
      have hleaf : (leaf j l t).spread ns i (s :: rest) = leaf j l t := by cases s <;> rfl
      rw [hleaf] at hy
      exact .inl hy
    | element j e cs t =>
      cases s with
      | «attribute» a => exact .inl hy
      | element s =>
        rw [spread, withChildren, ids_element, List.flatMap_append, List.flatMap_singleton,
          List.mem_cons, List.mem_append] at hy
        rw [ids_element, List.mem_cons]
        rcases hy with rfl | hy | hy
        · exact .inl (.inl rfl)
        · exact .inl (.inr hy)
        · rcases ih (i + 1) _ hy with hy | hy
          · rw [ids_newNode, List.mem_singleton] at hy
            exact .inr (Nat.le_of_eq hy.symm)
          · exact .inr (Nat.le_of_succ_le hy)

/-- A new child gets what further steps describe, among other children. -/
theorem update_insertAt (ns : Namespaces) (i k : NodeId) (steps : List Step) {z n : Node}
    (hz : z.id ∉ n.ids) :
    (insertAt k z n).update z.id (spread ns i steps) = insertAt k (z.spread ns i steps) n := by
  cases n with
  | leaf j l t => exact update_of_not_mem hz
  | element j e cs t =>
    rw [ids_element, List.mem_cons, not_or] at hz
    have hstay : ∀ {l : List Node}, l ⊆ cs → l.map (update z.id (spread ns i steps)) = l :=
      fun hl => map_eq_self fun c hc =>
        update_of_not_mem fun h => hz.2 (List.mem_flatMap.2 ⟨c, hl hc, h⟩)
    show (element j e (cs.take k ++ z :: cs.drop k) t).update z.id _ =
      element j e (cs.take k ++ z.spread ns i steps :: cs.drop k) t
    rw [update_element fun h => hz.1 h.symm, List.map_append, List.map_cons, update_self rfl,
      hstay (List.take_subset _ _), hstay (List.drop_subset _ _)]

theorem spread_element (ns : Namespaces) (i : NodeId) (s : ChildStep) (rest : List Step)
    (n : Node) : n.spread ns i (.element s :: rest) =
      insertAt n.children.length ((s.newNode ns i).spread ns (i + 1) rest) n := by
  cases n with
  | leaf j l t => rfl
  | element j e cs t =>
    show element j e (cs ++ [_]) t = element j e (cs.take cs.length ++ _ :: cs.drop cs.length) t
    rw [List.take_length, List.drop_length]

/-- The first step, and then the further ones from what it brought. -/
theorem update_spread (ns : Namespaces) (i : NodeId) (s : ChildStep) (rest : List Step) {n : Node}
    (hi : i ∉ n.ids) :
    (n.spread ns i [.element s]).update i (spread ns (i + 1) rest) =
      n.spread ns i (.element s :: rest) := by
  rw [spread_element, spread_element]
  exact update_insertAt ns (i + 1) _ rest (z := s.newNode ns i) hi

end Node

theorem Forest.update_spread_nil (f : Forest) (x : NodeId) (ns : Namespaces) (i : NodeId) :
    f.update x (spread ns i []) = f := by
  have htrees : f.trees.map (fun t => { t with top := t.top.update x (spread ns i []) }) =
      f.trees := map_eq_self fun t _ => congrArg (Tree.mk t.document t.attached) (update_id t.top)
  exact congrArg (Forest.mk · f.next) htrees

theorem Forest.grow_spread_nil (f : Forest) (x : NodeId) (ns : Namespaces) :
    f.grow x (spread ns f.next []) f.next = f := f.update_spread_nil x ns f.next

theorem Forest.not_mem_ids_of_mem {f : Forest} {m : Node} (hm : m ∈ f.nodes) {y : NodeId}
    (hy : y ∉ f.ids) : y ∉ m.ids := fun h =>
  hy (((nodes_sublist_of_mem hm).map Node.id).subset h)

section
variable {f : Forest} (hf : f.WellFormed) (ns : Namespaces) (x : NodeId) (s : ChildStep)
  (rest : List Step) (next : NodeId)
include hf

/-- A new element that gets what further steps describe was a chain of new elements from the
beginning. -/
theorem Forest.grow_insertAt (k : Nat) :
    (f.grow x (insertAt k (s.newNode ns f.next)) (f.next + 1)).grow f.next
        (spread ns (f.next + 1) rest) next =
      f.grow x (insertAt k ((s.newNode ns f.next).spread ns (f.next + 1) rest)) next :=
  grow_grow _ _ (fresh_next hf) fun (_ : Node) hm _ =>
    update_insertAt ns (f.next + 1) k rest (z := s.newNode ns f.next)
      (not_mem_ids_of_mem hm (fresh_next hf))

theorem Forest.grow_spread :
    (f.grow x (spread ns f.next [.element s]) (f.next + 1)).grow f.next
        (spread ns (f.next + 1) rest) next =
      f.grow x (spread ns f.next (.element s :: rest)) next :=
  grow_grow _ _ (fresh_next hf) fun (_ : Node) hm _ =>
    update_spread ns f.next s rest (not_mem_ids_of_mem hm (fresh_next hf))

end

/-! ## runs that make everything anew -/

section
variable {root : NodeId} {ns : Namespaces} {f : Forest}

/-- Nothing is made for an attribute. -/
theorem follow_anew_attribute (f : Forest) (h : AttributeHandle) (names : Option (List String))
    (bs : List (String × Step)) :
    (follow ⟨root, ns, .anew⟩ f (.attribute h) names bs).forest = f := by
  cases bs with
  | nil => rfl
  | cons b bs => rfl

/-- **A run extends one node**, with what some of the steps describe, in their order. -/
theorem follow_anew_spread (root : NodeId) (ns : Namespaces) (hf : f.Sound) (x : NodeId)
    (bs : List (String × Step)) :
    ∃ made, made <+: bs.map Prod.snd ∧
      (follow ⟨root, ns, .anew⟩ f (.node x) none bs).forest.trees =
        (f.update x (spread ns f.next made)).trees := by
  induction bs generalizing f x with
  | nil => exact ⟨[], List.nil_prefix, by rw [Forest.update_spread_nil]; rfl⟩
  | cons b bs ih =>
    obtain ⟨c, s⟩ := b
    rw [follow_anew_cons]
    cases s with
    | «attribute» a =>
      rcases addStep_attribute f x a ns none with ⟨failure, hstep, -⟩ |
        ⟨m, -, hm, hel, ha, hstep⟩
      · refine ⟨[], List.nil_prefix, ?_⟩
        rw [hstep, Forest.update_spread_nil]
        rfl
      · rw [hstep, Outcome.andThen_done, follow_anew_attribute]
        exact ⟨[.attribute a], by simp, rfl⟩
    | element s =>
      rcases addStep_element f x s ns none with ⟨conflicts, failure, hstep, -⟩ |
        ⟨p, -, hp, hfree, hstep⟩
      · refine ⟨[], List.nil_prefix, ?_⟩
        rw [hstep, Forest.update_spread_nil]
        rfl
      · obtain rfl := Except.ok.inj hp
        obtain ⟨q, k, hput, hq, -⟩ := Forest.put_eq_grow hf (s.newNode ns f.next) hfree
        have hsound := hput ▸ hf.insert hq k s ns
        obtain ⟨made, hmade, htrees⟩ := ih hsound f.next
        have hgrow : f.put (s.newNode ns f.next) (.last x) =
            f.grow x (spread ns f.next [.element s]) (f.next + 1) := rfl
        have hsame := congrArg Forest.trees
          (Forest.grow_spread hf.toWellFormed ns x s made (f.next + 1))
        refine ⟨.element s :: made, List.cons_prefix_cons.2 ⟨rfl, hmade⟩, ?_⟩
        rw [hstep, Outcome.andThen_ok]
        dsimp only
        rw [htrees, hgrow]
        exact hsame

end

/-! ## what a run adds -/

/-- What a run may add to a forest: nothing, a new child of an element behind `k` of its children,
or an attribute of an element. -/
inductive Addition where
  | nothing
  | branch (parent : NodeId) (k : Nat) (top : Node)
  | «attribute» (element : NodeId) (name : String)

namespace Addition

def make (f : Forest) : Addition → Forest
  | nothing => f
  | branch q k top => f.update q (insertAt k top)
  | .attribute q a => f.setAttribute q ⟨none, a⟩ ""

def unmake (f : Forest) : Addition → Forest
  | nothing => f
  | branch _ _ top => (f.extract? top.id).elim f Prod.snd
  | .attribute q a => f.removeAttribute q ⟨none, a⟩

/-- the node that something is added to -/
def place? : Addition → Option NodeId
  | nothing => none
  | branch q _ _ => some q
  | .attribute q _ => some q

/-- What is added is new, and for consecutive steps: a chain of elements below one of the forest, or
an attribute that an element didn't have. -/
def IsFor (f : Forest) (ns : Namespaces) (steps : List Step) : Addition → Prop
  | nothing => True
  | branch q _ top => f.isElement q = true ∧ (∀ y ∈ top.ids, y ∉ f.ids) ∧
      ∃ s rest, .element s :: rest <:+: steps ∧
        top = (s.newNode ns f.next).spread ns (f.next + 1) rest
  | .attribute q a => [.attribute a] <:+: steps ∧
      ∃ n, f.node? q = some n ∧ n.isElement = true ∧ n.hasAttribute a = false

end Addition

section
variable {root : NodeId} {ns : Namespaces} {f : Forest}

/-- A run that makes everything anew adds one thing; without names it is added where it begins. -/
theorem follow_anew_adds (root : NodeId) (ns : Namespaces) (hf : f.Sound) (x : NodeId)
    (names : Option (List String)) (bs : List (String × Step)) :
    ∃ a : Addition, a.IsFor f ns (bs.map Prod.snd) ∧
      (names = none → ∀ q ∈ a.place?, q = x) ∧
      (follow ⟨root, ns, .anew⟩ f (.node x) names bs).forest.trees = (a.make f).trees := by
  have hnothing : ∃ a : Addition, a.IsFor f ns (bs.map Prod.snd) ∧
      (names = none → ∀ q ∈ a.place?, q = x) ∧ f.trees = (a.make f).trees :=
    ⟨.nothing, trivial, fun _ q hq => absurd hq (by simp [Addition.place?]), rfl⟩
  cases bs with
  | nil => exact hnothing
  | cons b bs =>
    obtain ⟨c, s⟩ := b
    rw [follow_anew_cons]
    cases s with
    | «attribute» a =>
      rcases addStep_attribute f x a ns names with ⟨failure, hstep, -⟩ |
        ⟨m, -, hm, hel, ha, hstep⟩
      · rw [hstep]
        exact hnothing
      · rw [hstep, Outcome.andThen_done, follow_anew_attribute]
        exact ⟨.attribute x a, ⟨⟨[], _, rfl⟩, m, hm, hel, ha⟩,
          fun _ q hq => (Option.some.inj hq).symm, rfl⟩
    | element s =>
      rcases addStep_element f x s ns names with ⟨conflicts, failure, hstep, -⟩ |
        ⟨p, -, hp, hfree, hstep⟩
      · rw [hstep]
        exact hnothing
      · obtain ⟨q, k, hput, hq, hplace⟩ := Forest.put_eq_grow hf (s.newNode ns f.next) hfree
        obtain ⟨made, hmade, htrees⟩ := follow_anew_spread root ns
          (hf.insert hq k s ns) f.next bs
        have hsame := congrArg Forest.trees
          (Forest.grow_insertAt hf.toWellFormed ns q s made (f.next + 1) k)
        rw [hstep, Outcome.andThen_ok]
        dsimp only
        rw [hput, htrees]
        cases hm : f.node? q with
        | none =>
          obtain ⟨a, ha, hplace', hsame'⟩ := hnothing
          refine ⟨a, ha, hplace', hsame.trans ?_⟩
          rw [Forest.grow_of_not_mem (Forest.node?_eq_none_iff.1 hm)]
          exact hsame'
        | some m =>
          refine ⟨.branch q k _, ⟨?_, fun y hy hyf => ?_, s, made, ?_, rfl⟩, ?_, hsame⟩
          · rw [Forest.isElement, hm, Option.any_some]
            exact Forest.isElement_of_isLeaf hm hq
          · have hlt := hf.lt_next y hyf
            rcases ids_spread ns _ _ _ hy with hy | hy
            · rw [ids_newNode, List.mem_singleton] at hy
              exact Nat.lt_irrefl _ (hy ▸ hlt)
            · exact Nat.not_lt_of_le (Nat.le_of_succ_le hy) hlt
          · exact (List.cons_prefix_cons.2 ⟨rfl, hmade⟩).isInfix
          · rintro rfl q' hq'
            rw [← Option.some.inj hq']
            exact hplace x (Except.ok.inj hp).symm

theorem Addition.IsFor.of_isInfix {steps steps' : List Step} (h : steps <:+: steps') {a : Addition}
    (ha : a.IsFor f ns steps) : a.IsFor f ns steps' := by
  cases a with
  | nothing => trivial
  | branch q k top =>
    obtain ⟨hq, hnew, s, rest, hsteps, htop⟩ := ha
    exact ⟨hq, hnew, s, rest, hsteps.trans h, htop⟩
  | «attribute» q a => exact ⟨ha.1.trans h, ha.2⟩

theorem Continues.adds (hf : f.Sound) {x : NodeId} {names : Option (List String)}
    {steps : List Step} {bs : List (String × Step)} {o : Outcome Selected}
    (h : Continues ns steps (follow ⟨root, ns, .anew⟩ f (.node x) names) bs o) :
    ∃ a : Addition, a.IsFor f ns (bs.map Prod.snd) ∧ (names = none → ∀ q ∈ a.place?, q = x) ∧
      o.forest.trees = (a.make f).trees := by
  -- what a run over fewer steps adds is for those of the whole path as well
  have hless : ∀ made rest, bs = made ++ rest → ∃ a : Addition, a.IsFor f ns (bs.map Prod.snd) ∧
      (names = none → ∀ q ∈ a.place?, q = x) ∧
      (follow ⟨root, ns, .anew⟩ f (.node x) names made).forest.trees = (a.make f).trees := by
    rintro made rest rfl
    obtain ⟨a, ha, hplace, htrees⟩ :=
      follow_anew_adds root ns hf x names made
    refine ⟨a, ha.of_isInfix (List.IsPrefix.isInfix ?_), hplace, htrees⟩
    rw [List.map_append]
    exact List.prefix_append _ _
  cases h with
  | whole => exact follow_anew_adds root ns hf x names bs
  | failed hbs hc => exact hless _ _ hbs
  | given hbs hmade hfound => exact hless _ _ hbs

/-- **A run adds at most one thing**, in either mode and with any names.  Without names it is added
to the node that the path begins at or to one below. -/
theorem follow_adds (mode : Mode) {bs : List (String × Step)} (hread : ReadAs ns [] bs)
    (hlast : XPath.AttributeLast (bs.map Prod.snd)) (hf : f.Sound) {n : Node}
    (hn : f.node? root = some n) (names : Option (List String)) :
    ∃ a : Addition, a.IsFor f ns (bs.map Prod.snd) ∧
      (names = none → ∀ q ∈ a.place?, q ∈ n.ids) ∧
      (follow ⟨root, ns, mode⟩ f (.node root) names bs).forest.trees = (a.make f).trees := by
  have hnothing : ∃ a : Addition, a.IsFor f ns (bs.map Prod.snd) ∧
      (names = none → ∀ q ∈ a.place?, q ∈ n.ids) ∧ f.trees = (a.make f).trees :=
    ⟨.nothing, trivial, fun _ q hq => absurd hq (by simp [Addition.place?]), rfl⟩
  cases mode with
  | anew =>
    obtain ⟨a, ha, hplace, htrees⟩ := follow_anew_adds root ns hf root names bs
    refine ⟨a, ha, fun hnone q hq => ?_, htrees⟩
    rw [hplace hnone q hq, ← (Forest.mem_of_node? hn).2]
    exact n.id_mem_ids
  | reuse =>
    rcases follow_reuse hread hlast hf hn names with ⟨anchor, -, -, hrun⟩ |
      ⟨-, -, failure, -, hrun⟩ | ⟨found, missing, m, names', hbs, hm, hnames, hrun, -⟩
    · rw [hrun]
      exact hnothing
    · rw [hrun]
      exact hnothing
    · obtain ⟨a, ha, hplace, htrees⟩ := hrun.adds hf
      refine ⟨a, ha.of_isInfix (List.IsSuffix.isInfix ?_), fun hnone q hq => ?_, htrees⟩
      · rw [hbs, List.map_append]
        exact List.suffix_append _ _
      · rw [hplace (hnames hnone) q hq]
        exact List.mem_map_of_mem (mem_nodes_of_mem_reach ns hm)

end

/-! ## taking it back -/

namespace Node

variable {x : NodeId}

theorem withoutAll_map {g : Node → Node} {cs : List Node} (hid : ∀ c ∈ cs, (g c).id ≠ x)
    (h : ∀ c ∈ cs, (g c).without x = c) : withoutAll x (cs.map g) = cs := by
  have hkept : (cs.map g).filter (·.id ≠ x) = cs.map g := by
    rw [List.filter_eq_self]
    intro d hd
    obtain ⟨c, hc, rfl⟩ := List.mem_map.1 hd
    exact decide_eq_true (hid c hc)
  rw [withoutAll_eq_map, hkept, List.map_map]
  exact map_eq_self h

theorem without_of_not_mem {n : Node} (hx : x ∉ n.ids) : n.without x = n := by
  induction n using recursion with
  | leaf i l t => rfl
  | element i e cs t ih =>
    rw [ids_element, List.mem_cons, not_or] at hx
    have hcs : withoutAll x (cs.map fun c => c) = cs := by
      refine withoutAll_map (fun c hc h => ?_) fun c hc => ih c hc fun h => ?_
      · exact hx.2 (List.mem_flatMap.2 ⟨c, hc, h ▸ c.id_mem_ids⟩)
      · exact hx.2 (List.mem_flatMap.2 ⟨c, hc, h⟩)
    rw [List.map_id'] at hcs
    rw [without, hcs]

theorem withoutAll_append (x : NodeId) (cs ds : List Node) :
    withoutAll x (cs ++ ds) = withoutAll x cs ++ withoutAll x ds := by
  rw [withoutAll_eq_map, withoutAll_eq_map, withoutAll_eq_map, List.filter_append,
    List.map_append]

/-- A new child is taken out wherever it was put in. -/
theorem without_update_insertAt {q : NodeId} {k : Nat} {z n : Node} (hz : z.id ∉ n.ids) :
    (n.update q (insertAt k z)).without z.id = n := by
  induction n using recursion with
  | leaf i l t =>
    have hsame : (leaf i l t).update q (insertAt k z) = leaf i l t := ite_self _
    rw [hsame]
    rfl
  | element i e cs t ih =>
    rw [ids_element, List.mem_cons, not_or] at hz
    have hstay : ∀ c ∈ cs, z.id ∉ c.ids := fun c hc h => hz.2 (List.mem_flatMap.2 ⟨c, hc, h⟩)
    have hid : ∀ c ∈ cs, c.id ≠ z.id := fun c hc h => hstay c hc (h ▸ c.id_mem_ids)
    by_cases hi : i = q
    · have hpart : ∀ {l : List Node}, l ⊆ cs → withoutAll z.id l = l := by
        intro l hl
        have hself : withoutAll z.id (l.map fun c => c) = l := withoutAll_map
          (fun c hc => hid c (hl hc)) fun c hc => without_of_not_mem (hstay c (hl hc))
        rwa [List.map_id'] at hself
      rw [update_self (show (element i e cs t).id = q from hi)]
      show element i e (withoutAll z.id (cs.take k ++ z :: cs.drop k)) t = _
      rw [withoutAll_append, withoutAll, if_pos rfl, hpart (List.take_subset _ _),
        hpart (List.drop_subset _ _), List.take_append_drop]
    · have hcs : withoutAll z.id (cs.map (update q (insertAt k z))) = cs := by
        refine withoutAll_map (fun c hc => ?_) fun c hc => ih c hc (hstay c hc)
        rw [id_update fun m hm => (id_insertAt k z m).trans hm]
        exact hid c hc
      rw [update_element hi, without, hcs]

/-- two changes of the same node -/
theorem update_update_self {g h : Node → Node} (hg : ∀ m : Node, (g m).id = m.id) (n : Node) :
    (n.update x g).update x h = n.update x fun m => h (g m) := by
  induction n using recursion with
  | leaf i l t =>
    by_cases hi : (leaf i l t).id = x
    · rw [update_self hi, update_self hi, update_self ((hg _).trans hi)]
    · rw [update_leaf (show i ≠ x from hi), update_leaf (show i ≠ x from hi),
        update_leaf (show i ≠ x from hi)]
  | element i e cs t ih =>
    by_cases hi : (element i e cs t).id = x
    · rw [update_self hi, update_self hi, update_self ((hg _).trans hi)]
    · rw [update_element (show i ≠ x from hi), update_element (show i ≠ x from hi),
        update_element (show i ≠ x from hi), List.map_map]
      have hcs : cs.map (update x h ∘ update x g) = cs.map (update x fun m => h (g m)) :=
        List.map_congr_left ih
      rw [hcs]

theorem removeAttribute_addAttribute {n : Node} {a : String} (ha : n.hasAttribute a = false) :
    (n.addAttribute a).mapElement (·.removeAttribute ⟨none, a⟩) = n := by
  cases n with
  | leaf j l t => rfl
  | element j e cs t =>
    have hnone := attribute?_of_not_hasAttribute (Bool.eq_false_iff.1 ha)
    have hothers : e.attributes.filter (fun b => b.name ≠ ⟨none, a⟩) = e.attributes := by
      rw [Element.attribute?, Option.map_eq_none_iff, List.find?_eq_none] at hnone
      rw [List.filter_eq_self]
      intro b hb
      simpa using hnone b hb
    rw [addAttribute, mapElement, mapElement, Element.setAttribute, if_neg (by simp [hnone]),
      Element.removeAttribute, List.filter_append, hothers]
    simp

end Node

namespace Forest

variable {f f' : Forest}

/-- A new node below one of the forest is found, and taken out it leaves no trace. -/
theorem trees_extract?_insertAt (hf : f.Sound) {q : NodeId} {m : Node} (hm : f.node? q = some m)
    (hel : m.isElement = true) {k : Nat} {z : Node} (hz : z.id ∉ f.ids)
    (h : f'.trees = (f.update q (insertAt k z)).trees) :
    ∃ z' f'', f'.extract? z.id = some (z', f'') ∧ f''.trees = f.trees := by
  have htops : ∀ t ∈ f.trees, ∀ d ∈ t.top.nodes, d ∈ f.nodes := fun t ht d hd =>
    List.mem_flatMap.2 ⟨t, ht, hd⟩
  obtain ⟨z', hz'⟩ : ∃ z', f'.node? z.id = some z' := by
    obtain ⟨hmem, hid⟩ := mem_of_node? hm
    obtain ⟨t, ht, hmt⟩ := List.mem_flatMap.1 hmem
    have hinserted := mem_nodes_update (x := q) (g := insertAt k z) (hf.nodup_ids
      (hf.node?_of_mem (htops t ht _ t.top.self_mem_nodes))) hmt (hid ▸ m.id_mem_ids)
    rw [update_self hid] at hinserted
    have hchild : z ∈ (insertAt k z m).nodes := by
      refine Node.mem_nodes_of_mem_children ?_
      rw [children_insertAt hel]
      exact List.mem_append_right _ List.mem_cons_self
    rw [← Option.isSome_iff_exists, ← Option.ne_none_iff_isSome, Ne, node?_eq_none_iff, not_not]
    refine List.mem_map_of_mem (List.mem_flatMap.2
      ⟨{ t with top := t.top.update q (insertAt k z) }, ?_,
        (Node.nodes_sublist_of_mem hinserted).subset hchild⟩)
    rw [h]
    exact List.mem_map_of_mem ht
  refine ⟨z', _, by rw [extract?, hz']; rfl, ?_⟩
  have hkept : f'.trees.filter (fun t => t.top.id ≠ z.id) = f'.trees := by
    rw [List.filter_eq_self, h]
    intro t' ht'
    obtain ⟨t, ht, rfl⟩ := List.mem_map.1 ht'
    refine decide_eq_true fun hid => hz ?_
    rw [← hid]
    dsimp only
    rw [id_update fun d hd => (id_insertAt k z d).trans hd]
    exact List.mem_map_of_mem (htops t ht _ t.top.self_mem_nodes)
  dsimp only
  rw [hkept, h, update, List.map_map]
  refine map_eq_self fun t ht => ?_
  have htop : (t.top.update q (insertAt k z)).without z.id = t.top :=
    without_update_insertAt (not_mem_ids_of_mem (htops t ht _ t.top.self_mem_nodes) hz)
  exact congrArg (Tree.mk t.document t.attached) htop

theorem trees_removeAttribute_addAttribute (hf : f.Sound) {q : NodeId} {m : Node}
    (hm : f.node? q = some m) {a : String} (ha : m.hasAttribute a = false)
    (h : f'.trees = (f.update q (Node.addAttribute a)).trees) :
    (f'.removeAttribute q ⟨none, a⟩).trees = f.trees := by
  have hsame := congrArg Forest.trees (grow_eq_self hf hm
    (g := fun d => (d.addAttribute a).mapElement (·.removeAttribute ⟨none, a⟩))
    (removeAttribute_addAttribute ha))
  rw [removeAttribute, update, h, update, List.map_map]
  refine Eq.trans (List.map_congr_left fun t _ => ?_) hsame
  exact congrArg (Tree.mk t.document t.attached)
    (update_update_self (id_addAttribute a) t.top)

end Forest

/-- **What is taken back leaves no trace.** -/
theorem Addition.unmake_make {f : Forest} (hf : f.Sound) {ns : Namespaces} {steps : List Step}
    {a : Addition} (ha : a.IsFor f ns steps) {f' : Forest} (h : f'.trees = (a.make f).trees) :
    (a.unmake f').trees = f.trees := by
  cases a with
  | nothing => exact h
  | «attribute» q a =>
    obtain ⟨-, m, hm, -, hnew⟩ := ha
    exact Forest.trees_removeAttribute_addAttribute hf hm hnew h
  | branch q k top =>
    obtain ⟨hq, hnew, -⟩ := ha
    obtain ⟨m, hm, hel⟩ : ∃ m, f.node? q = some m ∧ m.isElement = true := by
      rwa [Forest.isElement, Option.any_eq_true] at hq
    obtain ⟨top', f'', hextract, htrees⟩ :=
      Forest.trees_extract?_insertAt hf hm hel (hnew _ top.id_mem_ids) h
    rw [unmake, hextract]
    exact htrees

/-! ## building -/

/-- The forest that was left, `f'`, is the one before and something new for some of the steps, which
can be taken back. -/
structure Addition.Accounts (a : Addition) (ns : Namespaces) (steps : List Step)
    (f f' : Forest) : Prop where
  isFor : a.IsFor f ns steps
  made : f'.trees = (a.make f).trees
  unmade : (a.unmake f').trees = f.trees

theorem forest_buildPath (s : Site) (f : Forest) (p : Path) (names : Option (List String)) :
    (buildPath s f p names).forest =
      (follow s f (.node s.root) names p.beginnings).forest := by
  rw [buildPath]
  obtain ⟨f', conflicts, result⟩ := follow s f (.node s.root) names p.beginnings
  cases result with
  | error failure => rfl
  | ok built =>
    rw [Outcome.andThen_ok, confirm]
    dsimp only
    split <;> rfl

theorem forest_buildElement {e : String} {p : Path} (hp : Path.parse e = .ok p)
    (hends : p.endsInAttribute = false) (s : Site) (f : Forest) (names : Option (List String)) :
    (buildElement s f e names).forest = (buildPath s f p names).forest := by
  rw [buildElement_of_parse hp hends]
  obtain ⟨f', conflicts, result⟩ := buildPath s f p names
  cases result with
  | error failure => rfl
  | ok built => cases built <;> rfl

/-- **Building adds at most one thing, whatever becomes of it**, and taken back it leaves the forest
as it was.  Expressions that are refused, and those that end in an attribute where an element is
asked for, change nothing. -/
theorem exists_addition_of_build {f : Forest} (hf : f.Sound) (s : Site) {n : Node}
    (hn : f.node? s.root = some n) (e : String) (names : Option (List String)) :
    (∀ failure, Path.parse e = .error failure →
      build s f e = .fail f (.path failure) ∧
      buildElement s f e names = .fail f (.path failure)) ∧
    ∀ p, Path.parse e = .ok p →
      (p.endsInAttribute = true → buildElement s f e names = .fail f (.endsInAttribute e)) ∧
      (∃ a : Addition, a.Accounts s.namespaces p.steps f (build s f e).forest) ∧
      ∃ a : Addition, a.Accounts s.namespaces p.steps f (buildElement s f e names).forest := by
  constructor
  · intro failure hp
    rw [build, buildElement, hp]
    exact ⟨rfl, rfl⟩
  intro p hp
  have haccounts : ∀ names, ∃ a : Addition,
      a.Accounts s.namespaces p.steps f (buildPath s f p names).forest := by
    intro names
    have hlast : XPath.AttributeLast (p.beginnings.map Prod.snd) := by
      rw [p.map_snd_beginnings]
      exact Path.attributeLast hp
    obtain ⟨a, ha, -, htrees⟩ :=
      follow_adds s.mode (readAs_beginnings hp s.namespaces) hlast hf hn names
    rw [p.map_snd_beginnings] at ha
    rw [forest_buildPath]
    exact ⟨a, ha, htrees, a.unmake_make hf ha htrees⟩
  have hends : p.endsInAttribute = true →
      buildElement s f e names = .fail f (.endsInAttribute e) := by
    intro hends
    rw [buildElement, hp]
    exact if_pos hends
  refine ⟨hends, by rw [build_of_parse hp]; exact haccounts none, ?_⟩
  by_cases h : p.endsInAttribute = true
  · rw [hends h]
    exact ⟨.nothing, trivial, rfl, rfl⟩
  · rw [forest_buildElement hp (Bool.eq_false_iff.2 h)]
    exact haccounts names

/-- An element is made, and the next step can't be looked up. -/
theorem exists_addition_of_build_operatorNames :
    (∃ p, Path.parse "p:and/c/q:d" = .ok p ∧
      (build ⟨0, [("p", "u")], .reuse⟩ operatorNames "p:and/c/q:d").result.toOption = none ∧
      (build ⟨0, [("p", "u")], .reuse⟩ operatorNames "p:and/c/q:d").forest.ids =
        [0, 1, 2, 3, 6, 4, 5] ∧
      ∃ a : Addition, a.Accounts [("p", "u")] p.steps operatorNames
        (build ⟨0, [("p", "u")], .reuse⟩ operatorNames "p:and/c/q:d").forest) ∧
    buildElement ⟨0, [("p", "u")], .reuse⟩ operatorNames "a/@b" (some ["p:or"]) =
      .fail operatorNames (.endsInAttribute "a/@b") ∧
    ∃ failure, Path.parse "a//b" = .error failure ∧
      build ⟨0, [("p", "u")], .anew⟩ operatorNames "a//b" =
        .fail operatorNames (.path failure) := by
  have hroot : operatorNames.node? 0 = some _ := rfl
  refine ⟨?_, ?_, ?_⟩
  · obtain ⟨p, hp, -⟩ : ∃ p, Path.parse "p:and/c/q:d" = .ok p ∧ p.steps.length = 3 := by
      refine exists_ok_of_toOption_map ?_
      decide +kernel
    refine ⟨p, hp, by decide +kernel, by decide +kernel, ?_⟩
    exact ((exists_addition_of_build sound_operatorNames ⟨0, [("p", "u")], .reuse⟩ hroot _ none).2
      p hp).2.1
  · obtain ⟨p, hp, hends⟩ : ∃ p, Path.parse "a/@b" = .ok p ∧ p.endsInAttribute = true := by
      refine exists_ok_of_toOption_map ?_
      decide +kernel
    exact ((exists_addition_of_build sound_operatorNames ⟨0, [("p", "u")], .reuse⟩ hroot _
      (some ["p:or"])).2 p hp).1 hends
  · have hnone : (Path.parse "a//b").toOption.isNone = true := by decide +kernel
    cases hfailure : Path.parse "a//b" with
    | ok p =>
      rw [hfailure] at hnone
      exact absurd hnone (by simp [Except.toOption])
    | error failure =>
      exact ⟨failure, rfl, ((exists_addition_of_build sound_operatorNames
        ⟨0, [("p", "u")], .anew⟩ hroot _ none).1 failure hfailure).1⟩

end XmlPaths

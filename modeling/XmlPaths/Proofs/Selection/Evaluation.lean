import XmlPaths.Proofs.Selection.Walk
import XmlPaths.Proofs.XPath.Steps

/-!
# The evaluation of steps

In a sound forest the evaluation of steps is the walk along them.

* `Forest.Row`            nodes side by side, none of which is below another one;
* `XPath.eval_comparison`, `XPath.eval_conjunction`   tests of attributes;
* `XPath.eval_elementStep`, `XPath.eval_attributeStep`   one step from a row of nodes;
* `XPath.eval_steps`      all steps.
-/

namespace XmlPaths

/-! ## rows of nodes -/

/-- nodes in document order, none of which is below another one -/
def Forest.Row (f : Forest) (ms : List Node) : Prop := (ms.flatMap Node.nodes).Sublist f.nodes

namespace Forest.Row

variable {f : Forest} {ms : List Node}

theorem of_mem {n : Node} (hn : n ∈ f.nodes) : f.Row [n] := by
  rw [Row, List.flatMap_singleton]
  exact nodes_sublist_of_mem hn

theorem sublist (h : f.Row ms) : ms.Sublist f.nodes := by
  have hself : ms.Sublist (ms.flatMap Node.nodes) := by
    have hmap := List.Sublist.flatMap_right ms (f := fun n => [n]) (g := Node.nodes) fun n _ =>
      List.singleton_sublist.2 (Node.self_mem_nodes n)
    rwa [List.flatMap_singleton'] at hmap
  exact hself.trans h

theorem mem (h : f.Row ms) {n : Node} (hn : n ∈ ms) : n ∈ f.nodes := h.sublist.subset hn

theorem sublist_targets (h : f.Row ms) {g : Node → List Ref}
    (hg : ∀ m ∈ ms, (g m).Sublist m.ownRefs) :
    (ms.flatMap g).Sublist (f.nodes.flatMap Node.ownRefs) :=
  (List.Sublist.flatMap_right ms hg).trans (h.sublist.flatMap _)

theorem children (h : f.Row ms) (p : Node → Bool) :
    f.Row (ms.flatMap fun n => n.children.filter p) := by
  have hsub : (ms.flatMap fun n => (n.children.filter p).flatMap Node.nodes).Sublist
      (ms.flatMap Node.nodes) :=
    List.Sublist.flatMap_right ms fun n _ =>
      ((List.filter_sublist).flatMap _).trans (Node.children_sublist_nodes n)
  rw [Row, List.flatMap_assoc]
  exact hsub.trans h

end Forest.Row

namespace XPath

/-! ## lists of nodes that are tested -/

theorem select_map {α : Type} {test : Ref → Nat → Except EvalError Bool} {g : α → Ref}
    {b : α → Bool} {cs : List α} (h : ∀ c ∈ cs, ∀ i, test (g c) i = .ok (b c)) (i : Nat) :
    select test i (cs.map g) = .ok ((cs.filter b).map g) := by
  induction cs generalizing i with
  | nil => rfl
  | cons c cs ih =>
    have htail := ih (fun d hd => h d (List.mem_cons_of_mem _ hd)) (i + 1)
    rw [List.map_cons, select, h c List.mem_cons_self i]
    dsimp only
    rw [htail]
    cases hb : b c with
    | true => rw [List.filter_cons_of_pos hb, List.map_cons]; rfl
    | false => rw [List.filter_cons_of_neg (by simp [hb])]; rfl

theorem collect_map {α : Type} {find : Ref → Except EvalError (List Ref)} {g : α → Ref}
    {found : α → List Ref} {cs : List α} (h : ∀ c ∈ cs, find (g c) = .ok (found c)) :
    collect find (cs.map g) = .ok (cs.flatMap found) := by
  induction cs with
  | nil => rfl
  | cons c cs ih =>
    rw [List.map_cons, collect, h c List.mem_cons_self]
    dsimp only
    rw [ih fun d hd => h d (List.mem_cons_of_mem _ hd), List.flatMap_cons]

theorem flatMap_ite {α β : Type} (p : α → Bool) (g : α → β) (cs : List α) :
    (cs.flatMap fun c => if p c then [g c] else []) = (cs.filter p).map g := by
  induction cs with
  | nil => rfl
  | cons c cs ih =>
    rw [List.flatMap_cons, ih]
    by_cases h : p c = true
    · rw [if_pos h, List.filter_cons_of_pos h, List.map_cons, List.singleton_append]
    · rw [if_neg h, List.filter_cons_of_neg h, List.nil_append]

/-! ## the axes of a node -/

section
variable {f : Forest} (hf : f.Sound)
include hf

theorem axis_attribute {n : Node} (hn : n ∈ f.nodes) :
    f.axis .attribute (.node n.id) = n.attributeRefs := by
  rw [Forest.axis, Forest.attributes, hf.node?_of_mem hn, Option.elim_some]

theorem axis_child {n : Node} (hn : n ∈ f.nodes) :
    f.axis .child (.node n.id) = n.childRefs := by
  rw [Forest.axis, Forest.children, hf.node?_of_mem hn, Option.elim_some]

theorem attributes_named {n : Node} (hn : n ∈ f.nodes) (a : String) :
    (f.axis .attribute (.node n.id)).filter (accepts f .attribute none (.named none a)) =
      if n.hasAttribute a then [.attribute n.id ⟨none, a⟩] else [] := by
  have hnodup : n.attributeRefs.Nodup := by
    have h := (List.nodup_flatMap.1 hf.nodup_targets).1 n hn
    exact (List.nodup_cons.1 h).2
  have haccepts : ∀ r ∈ n.attributeRefs,
      accepts f .attribute none (.named none a) r = (r == .attribute n.id ⟨none, a⟩) := by
    intro r hr
    rw [Node.attributeRefs] at hr
    split at hr
    · obtain ⟨b, -, rfl⟩ := List.mem_map.1 hr
      simp [accepts, isPrincipal, Forest.nameOf?]
    · exact absurd hr (by simp)
  have hmem : Ref.attribute n.id ⟨none, a⟩ ∈ n.attributeRefs ↔ n.hasAttribute a = true := by
    rw [Node.attributeRefs, Node.hasAttribute]
    cases n.element? with
    | none => simp
    | some e => simp [Element.attribute?]
  rw [axis_attribute hf hn, List.filter_congr haccepts, List.filter_beq]
  by_cases h : n.hasAttribute a = true
  · rw [if_pos h, List.count_eq_one_of_mem hnodup (hmem.2 h)]
    rfl
  · rw [if_neg h, List.count_eq_zero_of_not_mem fun hr => h (hmem.1 hr)]
    rfl

theorem attribute_sublist_ownRefs {n : Node} (hn : n ∈ f.nodes) (a : String) :
    (if n.hasAttribute a then [Ref.attribute n.id ⟨none, a⟩] else []).Sublist n.ownRefs := by
  rw [← attributes_named hf hn a, axis_attribute hf hn]
  exact (List.filter_sublist).trans (List.sublist_cons_self _ _)

theorem children_named {n : Node} (hn : n ∈ f.nodes) (space p : Option String) (l : String) :
    (f.axis .child (.node n.id)).filter (accepts f .child space (.named p l)) =
      (n.children.filter (·.isNamed ⟨space, l⟩)).map (.node ·.id) := by
  have htext : n.textRefs.filter (accepts f .child space (.named p l)) = [] := by
    rw [Node.textRefs]
    split <;> simp [accepts, isPrincipal]
  have hchild : ∀ c ∈ n.children,
      (.node c.id :: c.tailRefs : List Ref).filter (accepts f .child space (.named p l)) =
        if c.isNamed ⟨space, l⟩ then [.node c.id] else [] := by
    intro c hc
    have htail : c.tailRefs.filter (accepts f .child space (.named p l)) = [] := by
      rw [Node.tailRefs]
      split <;> simp [accepts, isPrincipal]
    have hnode := hf.node?_of_mem (Forest.mem_nodes_of_mem_children hn hc)
    have hself : accepts f .child space (.named p l) (.node c.id) = c.isNamed ⟨space, l⟩ := by
      rw [accepts, isPrincipal, Forest.nameOf?, Forest.isElement, hnode, Node.isNamed]
      cases hc' : c.element? <;> simp [Node.isElement, hc']
    rw [List.filter_cons, htail, hself]
  rw [axis_child hf hn, Node.childRefs, List.filter_append, htext, List.nil_append,
    List.filter_flatMap, List.flatMap_congr hchild, flatMap_ite]

/-! ## tests of attributes -/

variable (ns : Namespaces)

omit hf in
/-- one step from the nodes of an evaluated source, to a name without a prefix or with a bound one -/
theorem eval_step_of_source {focus : Focus} {source : Expr} {rs found : List Ref} {a : Axis}
    {t : NodeTest} {ps : List Expr} {space : Option String}
    (hsource : eval ⟨f, ns⟩ focus source = .ok (.nodes rs))
    (hspace : Scope.spaceOf ⟨f, ns⟩ t.nsPrefix? = .ok space)
    (hfound : collect (fun r => evalPredicates ⟨f, ns⟩ ps
      ((f.axis a r).filter (accepts f a space t))) rs = .ok found) :
    eval ⟨f, ns⟩ focus (.step source a t ps) = .ok (.nodes (f.inOrder found)) := by
  rw [eval, hsource]
  dsimp only
  rw [hspace]
  dsimp only
  rw [hfound]

theorem eval_attribute {n : Node} (hn : n ∈ f.nodes) (i size : Nat) (a : String) :
    eval ⟨f, ns⟩ ⟨.node n.id, i, size⟩ (.step .context .attribute (.named none a) []) =
      .ok (.nodes (if n.hasAttribute a then [.attribute n.id ⟨none, a⟩] else [])) := by
  have hsub : (if n.hasAttribute a then [Ref.attribute n.id ⟨none, a⟩] else []).Sublist
      (f.nodes.flatMap Node.ownRefs) := by
    have hrow := (Forest.Row.of_mem hn).sublist_targets (g := fun n =>
      if n.hasAttribute a then [Ref.attribute n.id ⟨none, a⟩] else []) fun m hm => by
        rw [List.mem_singleton.1 hm]
        exact attribute_sublist_ownRefs hf hn a
    rwa [List.flatMap_singleton] at hrow
  have hfound : collect (fun r => evalPredicates ⟨f, ns⟩ []
      ((f.axis .attribute r).filter (accepts f .attribute none (.named none a)))) [.node n.id] =
      .ok (if n.hasAttribute a then [.attribute n.id ⟨none, a⟩] else []) := by
    rw [collect, evalPredicates, attributes_named hf hn]
    dsimp only [collect]
    rw [List.append_nil]
  rw [eval_step_of_source ns (eval.eq_1 _ _) rfl hfound, hf.inOrder_of_sublist hsub]

/-- a value by which a predicate accepts a node or not, whatever its position -/
def Decides (v : Value) (b : Bool) : Prop := v.asTruth = b ∧ ∀ i, v.admits i = b

theorem eval_comparison {n : Node} (hn : n ∈ f.nodes) (i size : Nat) (k : Comparison) :
    ∃ v, eval ⟨f, ns⟩ ⟨.node n.id, i, size⟩ k.toExpr = .ok v ∧ Decides v (n.meets k) := by
  obtain ⟨a, value⟩ := k
  have ha := eval_attribute hf ns hn i size a
  cases value with
  | none =>
    have hmeets : n.meets ⟨a, none⟩ = n.hasAttribute a := rfl
    refine ⟨_, ha, ?_⟩
    rw [hmeets]
    constructor
    · cases n.hasAttribute a <;> rfl
    · intro j
      cases n.hasAttribute a <;> rfl
  | some v =>
    have hcompare : Value.compare f .eq
        (.nodes (if n.hasAttribute a then [.attribute n.id ⟨none, a⟩] else [])) (.text v) =
        n.meets ⟨a, some v⟩ := by
      rw [Value.compare_nodes_text, Node.hasAttribute, Node.meets]
      cases he : n.element? with
      | none => rfl
      | some e =>
        rw [Option.any_some, Option.any_some, Element.meets]
        cases hw : e.attribute? ⟨none, a⟩ with
        | none => rfl
        | some w => simp [Forest.stringValue, hf.node?_of_mem hn, he, hw]
    refine ⟨.truth (n.meets ⟨a, some v⟩), ?_, rfl, fun j => rfl⟩
    rw [Comparison.toExpr, eval, ha]
    dsimp only
    rw [if_neg (by simp [BinaryOp.settledBy]), eval]
    dsimp only
    rw [combine, hcompare]

theorem eval_conjunction {n : Node} (hn : n ∈ f.nodes) (i size : Nat) (ks : List Comparison)
    {e : Expr} {v : Value} {b : Bool} (he : eval ⟨f, ns⟩ ⟨.node n.id, i, size⟩ e = .ok v)
    (hv : Decides v b) :
    ∃ w, eval ⟨f, ns⟩ ⟨.node n.id, i, size⟩ (conjunction e ks) = .ok w ∧
      Decides w (b && ks.all n.meets) := by
  induction ks generalizing e v b with
  | nil =>
    rw [List.all_nil, Bool.and_true]
    exact ⟨v, he, hv⟩
  | cons k ks ih =>
    obtain ⟨w, hw, hk⟩ := eval_comparison hf ns hn i size k
    have hand : eval ⟨f, ns⟩ ⟨.node n.id, i, size⟩ (.binary .and e k.toExpr) =
        .ok (.truth (b && n.meets k)) := by
      rw [eval, he]
      dsimp only
      rw [hv.1]
      cases b with
      | false => rfl
      | true =>
        rw [if_neg (by simp [BinaryOp.settledBy]), hw]
        dsimp only
        rw [combine, hv.1, hk.1]
    rw [List.all_cons, ← Bool.and_assoc]
    exact ih hand ⟨rfl, fun j => rfl⟩

/-! ## steps -/

/-- A clause keeps the nodes that meet all its comparisons. -/
theorem evalPredicates_clause {cs : List Node} (hcs : ∀ c ∈ cs, c ∈ f.nodes)
    (ks : List Comparison) :
    evalPredicates ⟨f, ns⟩ (predicatesOf ks) (cs.map (.node ·.id)) =
      .ok ((cs.filter fun c => ks.all c.meets).map (.node ·.id)) := by
  cases ks with
  | nil =>
    rw [predicatesOf, evalPredicates]
    simp
  | cons k ks =>
    rw [predicatesOf, evalPredicates, select_map (b := fun c => (k :: ks).all c.meets) ?test]
    · dsimp only
      rw [evalPredicates]
    case test =>
      intro c hc i
      obtain ⟨v, hv, hk⟩ := eval_comparison hf ns (hcs c hc) i
        (cs.map fun c => Ref.node c.id).length k
      obtain ⟨w, hw, hall⟩ := eval_conjunction hf ns (hcs c hc) i _ ks hv hk
      rw [hw]
      dsimp only
      rw [hall.2 i, List.all_cons]

theorem eval_elementStep {focus : Focus} {source : Expr} {ms : List Node} (hms : f.Row ms)
    (hsource : eval ⟨f, ns⟩ focus source = .ok (.nodes (ms.map (.node ·.id)))) {s : ChildStep}
    (hs : ∀ p ∈ s.nsPrefix, (ns.space? p).isSome = true) :
    eval ⟨f, ns⟩ focus ((Step.element s).toExpr source) =
      .ok (.nodes ((ms.flatMap (·.childrenAt ns s)).map (.node ·.id))) := by
  have hspace : Scope.spaceOf ⟨f, ns⟩ (NodeTest.named s.nsPrefix s.localName).nsPrefix? =
      .ok (s.nsPrefix.bind ns.space?) := by
    show Scope.spaceOf ⟨f, ns⟩ s.nsPrefix = _
    cases hp : s.nsPrefix with
    | none => rfl
    | some p =>
      obtain ⟨uri, huri⟩ := Option.isSome_iff_exists.1 (hs p (by rw [hp]; rfl))
      have huri' : Scope.space? ⟨f, ns⟩ p = some uri := huri
      rw [Scope.spaceOf, huri', Option.bind_some, huri]
  have hfound : collect (fun r => evalPredicates ⟨f, ns⟩ (predicatesOf s.comparisons)
      ((f.axis .child r).filter (accepts f .child (s.nsPrefix.bind ns.space?)
        (.named s.nsPrefix s.localName)))) (ms.map (.node ·.id)) =
      .ok (ms.flatMap fun m => (m.childrenAt ns s).map (.node ·.id)) := by
    refine collect_map fun m hm => ?_
    have hm' := hms.mem hm
    have hfits : (fun c : Node => s.comparisons.all c.meets &&
        c.isNamed ⟨s.nsPrefix.bind ns.space?, s.localName⟩) = Node.fits ns s := by
      funext c
      exact Bool.and_comm _ _
    rw [children_named hf hm', evalPredicates_clause hf ns fun c hc =>
      Forest.mem_nodes_of_mem_children hm' (List.mem_filter.1 hc).1, List.filter_filter, hfits]
    rfl
  have hsub : ((ms.flatMap (·.childrenAt ns s)).map (Ref.node ·.id)).Sublist
      (f.nodes.flatMap Node.ownRefs) := by
    have hrow := hms.children (Node.fits ns s)
    have h := hrow.sublist_targets (g := fun m => [.node m.id]) fun m _ =>
      List.singleton_sublist.2 (by simp [Node.ownRefs])
    rwa [← List.map_eq_flatMap] at h
  rw [Step.toExpr, eval_step_of_source ns hsource hspace hfound, ← List.map_flatMap,
    hf.inOrder_of_sublist hsub]

theorem eval_attributeStep {focus : Focus} {source : Expr} {ms : List Node} (hms : f.Row ms)
    (hsource : eval ⟨f, ns⟩ focus source = .ok (.nodes (ms.map (.node ·.id)))) (a : String) :
    eval ⟨f, ns⟩ focus ((Step.attribute a).toExpr source) =
      .ok (.nodes (ms.flatMap fun m =>
        if m.hasAttribute a then [.attribute m.id ⟨none, a⟩] else [])) := by
  have hfound : collect (fun r => evalPredicates ⟨f, ns⟩ []
      ((f.axis .attribute r).filter (accepts f .attribute none (.named none a))))
      (ms.map (.node ·.id)) =
      .ok (ms.flatMap fun m => if m.hasAttribute a then [.attribute m.id ⟨none, a⟩] else []) :=
    collect_map fun m hm => by rw [evalPredicates, attributes_named hf (hms.mem hm)]
  have hsub := hms.sublist_targets fun m hm => attribute_sublist_ownRefs hf (hms.mem hm) a
  rw [Step.toExpr, eval_step_of_source ns hsource rfl hfound, hf.inOrder_of_sublist hsub]

/-- only the last step may be one to an attribute -/
def AttributeLast : List Step → Prop
  | [] => True
  | .element _ :: rest => AttributeLast rest
  | .attribute _ :: rest => rest = []

omit hf in
theorem AttributeLast.of_append {pre : List Step} {s : Step} {rest : List Step}
    (h : AttributeLast (pre ++ s :: rest)) :
    (∀ t ∈ pre, t.isAttribute = false) ∧ AttributeLast (s :: rest) := by
  induction pre with
  | nil => exact ⟨fun t ht => absurd ht (by simp), h⟩
  | cons t pre ih =>
    cases t with
    | element t =>
      obtain ⟨hpre, hrest⟩ := ih h
      refine ⟨fun t' ht' => ?_, hrest⟩
      rcases List.mem_cons.1 ht' with rfl | ht'
      · rfl
      · exact hpre t' ht'
    | «attribute» a => exact absurd (List.append_eq_nil_iff.1 h).2 (List.cons_ne_nil s rest)

/-- **The evaluation of steps is the walk along them.** -/
theorem eval_steps {focus : Focus} {steps : List Step} (hlast : AttributeLast steps)
    (hbind : ns.Bind steps) {source : Expr} {ms : List Node} (hms : f.Row ms)
    (hsource : eval ⟨f, ns⟩ focus source = .ok (.nodes (ms.map (.node ·.id)))) :
    ∃ rs, eval ⟨f, ns⟩ focus (stepsExpr source steps) = .ok (.nodes rs) ∧
      rs.filterMap (Selected.ofRef f) = ms.flatMap (Node.walk ns steps) := by
  induction steps generalizing source ms with
  | nil =>
    refine ⟨_, hsource, ?_⟩
    show _ = ms.flatMap fun m => [Selected.node m.id]
    rw [List.filterMap_map, ← List.map_eq_flatMap, ← List.filterMap_eq_map]
    rfl
  | cons s rest ih =>
    cases s with
    | element s =>
      have hstep := eval_elementStep hf ns hms hsource
        (hbind _ List.mem_cons_self)
      have hrow := hms.children (Node.fits ns s)
      obtain ⟨rs, hrs, hwalk⟩ := ih hlast (fun t ht => hbind t (List.mem_cons_of_mem _ ht))
        hrow hstep
      refine ⟨rs, hrs, hwalk.trans ?_⟩
      rw [List.flatMap_assoc]
      rfl
    | «attribute» a =>
      obtain rfl : rest = [] := hlast
      refine ⟨_, eval_attributeStep hf ns hms hsource a, ?_⟩
      rw [List.filterMap_flatMap]
      refine List.flatMap_congr fun m _ => ?_
      rw [Node.walk]
      by_cases h : m.hasAttribute a = true
      · rw [if_pos h, if_pos h]
        rfl
      · rw [if_neg h, if_neg h]
        rfl

end

end XPath

end XmlPaths

import Mathlib.Logic.Relation
import XmlPaths.Proofs.Build.Moving
import XmlPaths.Proofs.Build.Places

/-!
# Runs of calls

Whatever is called one after the other, and whether the calls return or fail: nodes are only made or
put into trees, and attributes only made.  So what an expression selects at some time it selects at
any later time as well.

* `Call`                      what one call may leave a forest for;
* `addStep_keeps`, `follow_keeps`   one turn, and a run along the steps of a path;
* `Call.keeps`, `keeps_of_run`      one call, and a run of calls;
* `selectFrom_of_run`         what is selected stays selected, in its order.
-/

namespace XmlPaths

/-! ## one call -/

/-- One call, which leaves one forest for another.  It may build what an expression describes, an
element of it behind named children, or insert a tree behind named children; the forest is what is
left when the call returns, or when it fails. -/
inductive Call (f : Forest) : Forest → Prop where
  | build (s : Site) (e : String) : Call f (build s f e).forest
  | buildElement (s : Site) (e : String) (names : Option (List String)) :
      Call f (buildElement s f e names).forest
  | insertBehind {parent : NodeId} (hparent : f.isElement parent = true) (child : NodeId)
      (names : List String) (ns : Namespaces) :
      Call f ((insertBehind f parent child names ns).toOption.getD f)

/-! ## along a path -/

section
variable {f : Forest} (hf : f.Sound)
include hf

/-- A turn keeps all nodes, whether it succeeds or not. -/
theorem addStep_keeps (context : Selected) (step : Step) (ns : Namespaces)
    (names : Option (List String)) :
    (addStep f context step ns names).forest.Sound ∧
      f.Keeps (addStep f context step ns names).forest := by
  cases context with
  | «attribute» h => exact ⟨hf, Forest.Keeps.refl f⟩
  | text t => exact ⟨hf, Forest.Keeps.refl f⟩
  | node x =>
    cases step with
    | element s =>
      rcases addStep_element f x s ns names with ⟨conflicts, failure, h, -⟩ | ⟨p, -, -, hp, h⟩
      · rw [h]
        exact ⟨hf, Forest.Keeps.refl f⟩
      · obtain ⟨q, k, hput, hq, -⟩ := Forest.put_eq_grow hf (s.newNode ns f.next) hp
        have hgrow := hf.insert hq k s ns
        rw [h, hput]
        exact ⟨hgrow, Forest.keeps_grow hf hgrow (Node.id_insertAt _ _)
          (fun _ _ => Node.nodes_insertAt_subset) fun n _ => Node.keptIn_insertAt _ _ n⟩
    | «attribute» a =>
      rcases addStep_attribute f x a ns names with ⟨failure, h, -⟩ | ⟨n, -, hx, hel, ha, h⟩
      · rw [h]
        exact ⟨hf, Forest.Keeps.refl f⟩
      · have hgrow := hf.addAttribute hx hel ha
        rw [h]
        refine ⟨hgrow, Forest.keeps_grow hf hgrow (Node.id_addAttribute a)
          (fun _ _ => Node.nodes_addAttribute_subset) fun m hm => ?_⟩
        obtain rfl : n = m := Option.some.inj (hx.symm.trans hm)
        exact Node.keptIn_addAttribute ha

/-- A run along the steps of a path keeps all nodes, however far it comes. -/
theorem follow_keeps (s : Site) (bs : List (String × Step)) (context : Selected)
    (names : Option (List String)) :
    (follow s f context names bs).forest.Sound ∧ f.Keeps (follow s f context names bs).forest := by
  induction bs generalizing f context names with
  | nil => exact ⟨hf, Forest.Keeps.refl f⟩
  | cons b rest ih =>
    obtain ⟨expression, step⟩ := b
    rw [follow]
    cases s.existing? f expression with
    | error failure => exact ⟨hf, Forest.Keeps.refl f⟩
    | ok existing =>
      cases existing with
      | some found => exact ih hf found none
      | none =>
        obtain ⟨hsound, hkeeps⟩ := addStep_keeps hf context step s.namespaces names
        dsimp only
        cases hmade : (addStep f context step s.namespaces names).result with
        | error failure =>
          rw [Outcome.andThen, hmade]
          exact ⟨hsound, hkeeps⟩
        | ok made =>
          rw [Outcome.forest_andThen_of_ok _ hmade]
          obtain ⟨hsound', hkeeps'⟩ := ih hsound made none
          exact ⟨hsound', hkeeps.trans hkeeps'⟩

/-- A tree that was inserted behind named children keeps all nodes, and so do the other trees. -/
theorem insertBehind_keeps {parent child : NodeId} (hparent : f.isElement parent = true)
    {names : List String} {ns : Namespaces} {f' : Forest}
    (h : insertBehind f parent child names ns = .ok f') : f'.Sound ∧ f.Keeps f' := by
  have hmem : parent ∈ f.ids := by
    rw [Forest.isElement, Option.any_eq_true] at hparent
    obtain ⟨m, hm, -⟩ := hparent
    exact Forest.mem_ids_of_node? hm
  rw [insertBehind] at h
  split at h
  · exact absurd h (by simp)
  · next hchild =>
    split at h
    · exact absurd h (by simp)
    · next p hplace =>
      have hnode : p.node ∈ f.ids := by
        rcases mem_ids_of_placeByPriority hmem hplace with rfl | ⟨s, rfl, hs⟩
        · exact hmem
        · exact hs
      cases hinsert : f.insert child p with
      | error r =>
        rw [hinsert] at h
        exact absurd h (by simp [Except.mapError])
      | ok g =>
        rw [hinsert] at h
        rw [← Except.ok.inj h]
        exact hf.insert_keeps hchild hnode hinsert

/-- **A call keeps all nodes**, whether it returns or fails. -/
theorem Call.keeps {f' : Forest} (h : Call f f') : f'.Sound ∧ f.Keeps f' := by
  cases h with
  | build s e =>
    cases hp : Path.parse e with
    | error failure =>
      rw [XmlPaths.build, hp]
      exact ⟨hf, Forest.Keeps.refl f⟩
    | ok p =>
      rw [build_of_parse hp, forest_buildPath]
      exact follow_keeps hf s p.beginnings _ none
  | buildElement s e names =>
    cases hp : Path.parse e with
    | error failure =>
      rw [XmlPaths.buildElement, hp]
      exact ⟨hf, Forest.Keeps.refl f⟩
    | ok p =>
      cases hends : p.endsInAttribute with
      | true =>
        rw [XmlPaths.buildElement, hp]
        dsimp only
        rw [if_pos hends]
        exact ⟨hf, Forest.Keeps.refl f⟩
      | false =>
        rw [forest_buildElement hp hends, forest_buildPath]
        exact follow_keeps hf s p.beginnings _ names
  | insertBehind hparent child names ns =>
    cases h : XmlPaths.insertBehind f _ child names ns with
    | error failure => exact ⟨hf, Forest.Keeps.refl f⟩
    | ok f' => exact insertBehind_keeps hf hparent h

/-- A run of calls keeps all nodes. -/
theorem keeps_of_run {f' : Forest} (h : Relation.ReflTransGen Call f f') :
    f'.Sound ∧ f.Keeps f' := by
  induction h with
  | refl => exact ⟨hf, Forest.Keeps.refl f⟩
  | tail _ hcall ih =>
    obtain ⟨hsound, hkeeps⟩ := ih
    obtain ⟨hsound', hkeeps'⟩ := hcall.keeps hsound
    exact ⟨hsound', hkeeps.trans hkeeps'⟩

end

/-- **What is selected stays selected.**  After any number of calls on any elements, with any
expressions, names and namespaces, of which some may have failed, an accepted expression still
selects from a node all that it selected before, in the same order. -/
theorem selectFrom_of_run {f f' : Forest} (hf : f.Sound) (hrun : Relation.ReflTransGen Call f f')
    {e : String} {p : Path} (hp : Path.parse e = .ok p) {ns : Namespaces} {x : NodeId} {n : Node}
    (hx : f.node? x = some n) {selected : List Selected}
    (h : selectFrom f x e ns = .ok selected) :
    ∃ selected', selectFrom f' x e ns = .ok selected' ∧ selected.Sublist selected' := by
  obtain ⟨hf', hkeeps⟩ := keeps_of_run hf hrun
  exact hkeeps.selectFrom hf hf' hp hx h

/-- the document with names that are operators, and an element beside it -/
def operatorNamesAndMore : Forest :=
  ⟨operatorNames.trees ++ [⟨1, true, .element 6 ⟨⟨some "u", "and"⟩, [⟨⟨none, "x"⟩, "a]b"⟩], none⟩
    [.element 7 ⟨⟨none, "div"⟩, [], none⟩ [] none] none⟩], 8⟩

theorem sound_operatorNamesAndMore : operatorNamesAndMore.Sound where
  nodup := by decide
  lt_next := by decide
  attributes := by decide

/-- An element is made, the other tree is put in front of all children, and a call fails. -/
theorem selectFrom_of_run_operatorNames :
    ∃ f', Relation.ReflTransGen Call operatorNamesAndMore f' ∧
      f'.ids = [0, 6, 7, 1, 2, 3, 4, 5, 8] ∧
      ∃ selected', selectFrom f' 0 "p:and[@x='a]b']/div" [("p", "u")] = .ok selected' ∧
        [.node 3, .node 5].Sublist selected' := by
  have hmade : Call operatorNamesAndMore _ :=
    .build ⟨0, [("p", "u")], .anew⟩ "p:and[@x='a]b']"
  have hinserted : Call (build ⟨0, [("p", "u")], .anew⟩ operatorNamesAndMore
      "p:and[@x='a]b']").forest _ :=
    @Call.insertBehind _ 0 (by decide +kernel) 6 ["p:or"] [("p", "u")]
  have hfailed := Call.buildElement (f := (insertBehind (build ⟨0, [("p", "u")], .anew⟩
      operatorNamesAndMore "p:and[@x='a]b']").forest 0 6 ["p:or"] [("p", "u")]).toOption.getD
      (build ⟨0, [("p", "u")], .anew⟩ operatorNamesAndMore "p:and[@x='a]b']").forest)
    ⟨2, [], .reuse⟩ "a//b" (some [])
  have hrun := ((Relation.ReflTransGen.single hmade).tail hinserted).tail hfailed
  obtain ⟨p, hp, -⟩ : ∃ p, Path.parse "p:and[@x='a]b']/div" = .ok p ∧ p.steps.length = 2 := by
    refine exists_ok_of_toOption_map ?_
    decide +kernel
  obtain ⟨selected, hsel, rfl⟩ : ∃ selected, selectFrom operatorNamesAndMore 0
      "p:and[@x='a]b']/div" [("p", "u")] = .ok selected ∧ selected = [.node 3, .node 5] := by
    refine exists_ok_of_toOption_map (f := fun selected => selected) ?_
    decide +kernel
  exact ⟨_, hrun, by decide +kernel,
    selectFrom_of_run sound_operatorNamesAndMore hrun hp rfl hsel⟩

end XmlPaths

import XmlPaths.Proofs.Build.Anew
import XmlPaths.Proofs.Build.Ensuring
import XmlPaths.Proofs.Build.Flaws
import XmlPaths.Proofs.Build.Runs

/-!
# What calls fail with

Whatever expression and bindings are given, looking up and making nodes either succeeds, fails with
a reported failure, or the documents refuse something that is wrong about the bindings or the
characters of the expression.  What the steps are made for is an element at any time.

* `Outcome.Fares`         how an operation may end, and how operations in turn do;
* `Stands`                where a run stands, between two steps;
* `Stands.addStep_element`, `Stands.addStep_attribute`, `Stands.follow`   one turn, and a run along
  the steps of a path;
* `Fails`, `Fails.reported_or_flawed`   the calls, and what they fail with.
-/

namespace XmlPaths

/-! ## how operations end -/

/-- The operation ends with something that `P` holds of in the documents it leaves, or it fails in
one of the ways `E`. -/
structure Outcome.Fares {α : Type} (E : Failure → Prop) (P : Forest → α → Prop) (o : Outcome α) :
    Prop where
  ok : ∀ a, o.result = .ok a → P o.forest a
  error : ∀ failure, o.result = .error failure → E failure

namespace Outcome

variable {α β : Type} {E : Failure → Prop} {P : Forest → α → Prop} {Q : Forest → β → Prop}

theorem fares_done {f : Forest} {a : α} (h : P f a) : (done f a).Fares E P where
  ok := fun b hb => Except.ok.inj hb ▸ h
  error := fun _ he => absurd he (by simp [done])

theorem fares_fail {f : Forest} {failure : Failure} (h : E failure) :
    (fail f failure : Outcome α).Fares E P where
  ok := fun _ hb => absurd hb (by simp [fail])
  error := fun _ he => Except.error.inj he ▸ h

/-- An operation, and another one with what it ends with. -/
theorem Fares.andThen {o : Outcome α} {next : Forest → α → Outcome β} (h : o.Fares E P)
    (hnext : ∀ f a, P f a → (next f a).Fares E Q) : (o.andThen next).Fares E Q := by
  cases hresult : o.result with
  | error failure =>
    have herror := result_andThen_of_error next hresult
    refine ⟨fun b hb => absurd (herror.symm.trans hb) (by simp), fun failure' hfailure' => ?_⟩
    rw [← Except.error.inj (herror.symm.trans hfailure')]
    exact h.error failure hresult
  | ok a =>
    have hgoes := hnext o.forest a (h.ok a hresult)
    constructor
    · intro b hb
      rw [forest_andThen_of_ok next hresult]
      exact hgoes.ok b ((result_andThen_of_ok next hresult).symm.trans hb)
    · intro failure hfailure
      exact hgoes.error failure ((result_andThen_of_ok next hresult).symm.trans hfailure)

end Outcome

/-! ## one turn -/

theorem blueprint_fares {ns : Namespaces} {e : String} {s : ChildStep}
    (hs : (Step.element s).ReadFrom e) (f : Forest) :
    (s.blueprint f ns).Fares (Failure.Justified ns e) fun f' _ => f' = f := by
  rw [ChildStep.blueprint]
  split
  · next failure hname => exact Outcome.fares_fail (justified_of_name hs hname)
  · next n hname =>
    refine ⟨fun _ _ => rfl, fun failure hfailure => ?_⟩
    dsimp only at hfailure
    cases hrefusal : elementRefusal? n (Derivation.ofComparisons s.comparisons).attributes with
    | none =>
      rw [hrefusal] at hfailure
      exact absurd hfailure (by simp)
    | some r =>
      rw [hrefusal] at hfailure
      rw [← Except.error.inj hfailure]
      exact (flawed_of_elementRefusal? hs hname hrefusal).justified

/-- Where a run stands: the node that the path begins at and the one that something is made for are
elements. -/
structure Stands (f : Forest) (root x : NodeId) : Prop where
  sound : f.Sound
  root : f.isElement root = true
  context : f.isElement x = true

section
variable {f : Forest} {root x : NodeId} (h : Stands f root x) {ns : Namespaces} {e : String}
include h

/-- **A turn for an element** fails for a reason, or ends with an element. -/
theorem Stands.addStep_element {s : ChildStep} (hs : (Step.element s).ReadFrom e) :
    (addStep f (.node x) (.element s) ns none).Fares (Failure.Justified ns e) fun f' made =>
      ∃ y, made = .node y ∧ Stands f' root y := by
  obtain ⟨n, hn, hel⟩ := (Option.any_eq_true _ _).1 h.context
  constructor
  · intro made hmade
    obtain ⟨hsound, hkeeps⟩ := addStep_keeps h.sound (.node x) (.element s) ns none
    rcases XmlPaths.addStep_element f x s ns none with ⟨conflicts, failure, hstep, -⟩ |
      ⟨p, -, hp, -, hstep⟩
    · rw [hstep] at hmade
      exact absurd hmade (by simp)
    · obtain rfl := Except.ok.inj hp
      rw [hstep] at hmade hsound hkeeps ⊢
      refine ⟨f.next, (Except.ok.inj hmade).symm, hsound, hkeeps.isElement h.root, ?_⟩
      obtain ⟨k, hput⟩ := Forest.put_last h.sound (s.newNode ns f.next) x
      rw [Forest.isElement, hput, Forest.node?_inserted h.sound hn hel k s ns]
      rfl
  · have hplace : Forest.Place.refusal? f (.last x) = none := by
      rw [Forest.Place.refusal?, Forest.isLeaf_of_isElement hn hel, if_neg (by simp)]
    have hmade : (addElement f x s ns none).Fares (Failure.Justified ns e) fun _ _ => True := by
      refine (blueprint_fares hs f).andThen fun f' made hf' => ?_
      rw [hf']
      dsimp only [placeOf]
      rw [hplace]
      exact Outcome.fares_done trivial
    exact (hmade.andThen (Q := fun _ _ => True) fun _ _ _ => Outcome.fares_done trivial).error

/-- **A turn for an attribute** fails for a reason. -/
theorem Stands.addStep_attribute {a : String} (ha : (Step.attribute a).ReadFrom e) :
    (addStep f (.node x) (.attribute a) ns none).Fares (Failure.Justified ns e) fun _ _ => True := by
  obtain ⟨n, hn, hel⟩ := (Option.any_eq_true _ _).1 h.context
  obtain ⟨i, hi⟩ := Option.isSome_iff_exists.1 hel
  have hmade : (addAttribute f x a).Fares (Failure.Justified ns e) fun _ _ => True := by
    rw [addAttribute, hn, Option.bind_some, hi]
    dsimp only
    split
    · exact Outcome.fares_fail fun r hr => absurd hr (by simp)
    · split
      · exact Outcome.fares_done trivial
      · next hname =>
        refine Outcome.fares_fail (Flawed.justified (.name ?_))
        exact oghamSpace_mem_of_name ha.writable ha.drawn (Bool.eq_false_iff.2 hname)
  rw [addStep]
  exact hmade.andThen fun _ _ _ => Outcome.fares_done trivial

end

/-! ## runs -/

/-- A turn of a run, told by what the run does with what is found, or with what is made. -/
theorem fares_of_turn {site : Site} {f : Forest} {context : Selected}
    {names : Option (List String)} {c : String} {s : Step} {rest : List (String × Step)}
    {E : Failure → Prop} {P : Forest → Selected → Prop}
    (hfail : ∀ failure, selectFrom f site.root c site.namespaces = .error failure → E failure)
    (hfound : ∀ found rs, selectFrom f site.root c site.namespaces = .ok (found :: rs) →
      (follow site f found none rest).Fares E P)
    (hmade : ((addStep f context s site.namespaces names).andThen fun f' made =>
      follow site f' made none rest).Fares E P) :
    (follow site f context names ((c, s) :: rest)).Fares E P := by
  obtain ⟨root, ns, mode⟩ := site
  cases mode with
  | anew =>
    rw [follow_anew_cons]
    exact hmade
  | reuse =>
    cases hselect : selectFrom f root c ns with
    | error failure =>
      rw [follow_of_error _ _ _ _ hselect]
      exact Outcome.fares_fail (hfail failure hselect)
    | ok rs =>
      cases rs with
      | nil =>
        rw [follow_of_missing _ _ _ _ hselect]
        exact hmade
      | cons found rs =>
        rw [follow_of_found _ _ _ _ hselect]
        exact hfound found rs hselect

section
variable {root : NodeId} {ns : Namespaces} {e : String}

/-- What is found for an element step is an element, from which a run can go on. -/
theorem Stands.found {pre : List Step} (hpre : ∀ s ∈ pre, s.isAttribute = false) {c : String}
    (hread : Readable ns c pre ∨ Unreadable ns c) {f : Forest} {x : NodeId}
    (h : Stands f root x) {found : Selected} {rs : List Selected}
    (hselect : selectFrom f root c ns = .ok (found :: rs)) :
    ∃ y, found = .node y ∧ Stands f root y := by
  obtain ⟨n, hn, hel⟩ := (Option.any_eq_true _ _).1 h.root
  obtain ⟨m, hm, rfl⟩ :=
    exists_mem_reach_of_head hpre (walk_of_selectFrom hread h.sound hn hselect)
  refine ⟨m.id, rfl, h.sound, h.root, ?_⟩
  have hmem := (Forest.nodes_sublist_of_mem (Forest.mem_of_node? hn).1).subset
    (Node.mem_nodes_of_mem_reach ns hm)
  rw [Forest.isElement, h.sound.node?_of_mem hmem]
  exact isElement_of_mem_reach ns hel hm

/-- **A run along the steps of a path** fails for a reason, or it ends with an element if no step is
to an attribute. -/
theorem Stands.follow (mode : Mode) {bs : List (String × Step)} {pre : List Step}
    (hread : ReadAs ns pre bs) (hpre : ∀ s ∈ pre, s.isAttribute = false)
    (hlast : XPath.AttributeLast (bs.map Prod.snd))
    (hbs : ∀ b ∈ bs, b.2.ReadFrom e ∧ ∃ z, e.toList = b.1.toList ++ z) {f : Forest} {x : NodeId}
    (h : Stands f root x) :
    (follow ⟨root, ns, mode⟩ f (.node x) none bs).Fares (Failure.Justified ns e) fun _ built =>
      (∀ b ∈ bs, b.2.isAttribute = false) → ∃ y, built = .node y := by
  induction bs generalizing pre f x with
  | nil => exact Outcome.fares_done fun _ => ⟨x, rfl⟩
  | cons b bs ih =>
    obtain ⟨c, s⟩ := b
    obtain ⟨⟨hs, hc⟩, hrest⟩ := List.forall_mem_cons.1 hbs
    have hfail : ∀ failure, selectFrom f root c ns = .error failure →
        failure.Justified ns e := fun failure => justified_of_selectFrom hc
    cases s with
    | element s =>
      have hpre' := elements_concat hpre s
      have hgoes : ∀ f' made, (∃ y, made = .node y ∧ Stands f' root y) →
          (XmlPaths.follow ⟨root, ns, mode⟩ f' made none bs).Fares (Failure.Justified ns e)
            fun _ built => (∀ b ∈ (c, Step.element s) :: bs, b.2.isAttribute = false) →
              ∃ z, built = Selected.node z := by
        rintro f' _ ⟨y, rfl, hy⟩
        have hrun := ih hread.tail hpre' hlast hrest hy
        refine ⟨fun built hbuilt hsteps => hrun.ok built hbuilt fun b hb => ?_, hrun.error⟩
        exact hsteps b (List.mem_cons_of_mem _ hb)
      refine fares_of_turn hfail (fun found rs hselect => hgoes f found ?_) ?_
      · exact h.found hpre' hread.head hselect
      · exact (h.addStep_element hs).andThen hgoes
    | «attribute» a =>
      obtain rfl : bs = [] := List.map_eq_nil_iff.1 hlast
      -- nothing follows, and the result is an attribute
      have hdone : ∀ f' built, (Outcome.done f' built).Fares (Failure.Justified ns e)
          fun _ built => (∀ b ∈ [(c, Step.attribute a)], b.2.isAttribute = false) →
            ∃ z, built = Selected.node z := fun f' built =>
        Outcome.fares_done fun hsteps => absurd (hsteps _ List.mem_cons_self)
          (by simp [Step.isAttribute])
      refine fares_of_turn hfail (fun found rs _ => hdone f found) ?_
      exact (h.addStep_attribute hs).andThen fun f' made _ => hdone f' made

end

/-! ## calls -/

theorem confirm_fares (s : Site) (f : Forest) (e : String) (built : Selected) :
    (confirm s f e built).Fares (Failure.Justified s.namespaces e) fun _ built' =>
      built' = built := by
  rw [confirm]
  split
  · next failure hselect =>
    exact Outcome.fares_fail (justified_of_selectFrom ⟨[], (List.append_nil _).symm⟩ hselect)
  · exact Outcome.fares_fail (justified_of_ne_refused (by simp))
  · exact Outcome.fares_done rfl

section
variable {root : NodeId} {ns : Namespaces} {e : String}

theorem buildPath_fares {p : Path} (hp : Path.parse e = .ok p) (mode : Mode) {f : Forest}
    (h : Stands f root root) :
    (buildPath ⟨root, ns, mode⟩ f p none).Fares (Failure.Justified ns e) fun _ built =>
      p.endsInAttribute = false → ∃ y, built = .node y := by
  have hsteps : ∀ b ∈ p.beginnings, b.2 ∈ p.steps := fun b hb =>
    p.map_snd_beginnings ▸ List.mem_map_of_mem hb
  have hlast : XPath.AttributeLast (p.beginnings.map Prod.snd) := by
    rw [p.map_snd_beginnings]
    exact Path.attributeLast hp
  have hbs : ∀ b ∈ p.beginnings, b.2.ReadFrom e ∧ ∃ z, e.toList = b.1.toList ++ z := by
    intro b hb
    obtain ⟨found, missing, hsplit⟩ := List.append_of_mem hb
    exact ⟨readFrom_of_parse hp b.2 (hsteps b hb),
      (spells_beginning common_known.toClear hp hsplit).1⟩
  refine (h.follow mode (readAs_beginnings hp ns) (fun s hs => absurd hs (by simp)) hlast
    hbs).andThen fun f' built hbuilt => ?_
  rw [expression_of_parse hp]
  have hconfirm := confirm_fares ⟨root, ns, mode⟩ f' e built
  refine ⟨fun built' hbuilt' hends => ?_, hconfirm.error⟩
  rw [hconfirm.ok built' hbuilt']
  exact hbuilt fun b hb =>
    elements_of_endsInAttribute (Path.attributeLast hp) hends b.2 (hsteps b hb)

end

/-- What a call fails with that looks up or makes what the expression describes, from an element on
and for the bindings that are given. -/
inductive Fails (f : Forest) (root : NodeId) (ns : Namespaces) (e : String) : Failure → Prop where
  | select {failure : Failure} (h : selectFrom f root e ns = .error failure) :
      Fails f root ns e failure
  | build (mode : Mode) {failure : Failure}
      (h : (build ⟨root, ns, mode⟩ f e).result = .error failure) : Fails f root ns e failure
  | buildElement (mode : Mode) {failure : Failure}
      (h : (buildElement ⟨root, ns, mode⟩ f e none).result = .error failure) :
      Fails f root ns e failure
  | ensure {failure : Failure} (h : (ensure f root ns e).result = .error failure) :
      Fails f root ns e failure

section
variable {f : Forest} (hf : f.Sound) {root : NodeId} (hroot : f.isElement root = true)
  {ns : Namespaces} {e : String}
include hf hroot

theorem buildElement_fares (mode : Mode) :
    (buildElement ⟨root, ns, mode⟩ f e none).Fares (Failure.Justified ns e) fun _ _ => True := by
  cases hp : Path.parse e with
  | error failure =>
    rw [buildElement, hp]
    exact Outcome.fares_fail (justified_of_ne_refused (by simp))
  | ok p =>
    cases hends : p.endsInAttribute with
    | true =>
      rw [buildElement, hp]
      dsimp only
      rw [if_pos hends]
      exact Outcome.fares_fail (justified_of_ne_refused (by simp))
    | false =>
      rw [buildElement_of_parse hp hends]
      refine (buildPath_fares hp mode ⟨hf, hroot, hroot⟩).andThen fun f' built hbuilt => ?_
      obtain ⟨y, rfl⟩ := hbuilt hends
      exact Outcome.fares_done trivial

theorem ensure_fares : (ensure f root ns e).Fares (Failure.Justified ns e) fun _ _ => True := by
  obtain ⟨n, hn, hel⟩ := (Option.any_eq_true _ _).1 hroot
  cases hp : Path.parse e with
  | error failure =>
    rw [ensure, hp]
    exact Outcome.fares_fail (justified_of_ne_refused (by simp))
  | ok p =>
    cases hselect : selectFrom f root e ns with
    | error failure =>
      rw [ensure, hp]
      dsimp only
      rw [hselect]
      exact Outcome.fares_fail (justified_of_selectFrom ⟨[], (List.append_nil _).symm⟩ hselect)
    | ok rs =>
      cases rs with
      | cons r rs =>
        rw [ensure_of_found hp hselect]
        exact Outcome.fares_done trivial
      | nil =>
        obtain ⟨φ, -, -, hsound, hnode⟩ := hf.plant hn
        have hcopy : (f.plant (n.withTail none)).1.isElement f.next = true := by
          rw [Forest.isElement, hnode, Option.any_some, Node.isElement, Node.element?_replica]
          exact hel
        rw [ensure_of_missing hn hp hselect]
        exact (buildPath_fares hp .reuse ⟨hsound, hcopy, hcopy⟩).andThen fun _ _ _ =>
          Outcome.fares_done trivial

theorem Fails.justified {failure : Failure} (h : Fails f root ns e failure) :
    failure.Justified ns e := by
  cases h with
  | select h => exact justified_of_selectFrom ⟨[], (List.append_nil _).symm⟩ h
  | build mode h =>
    cases hp : Path.parse e with
    | error failure' =>
      rw [XmlPaths.build, hp] at h
      rw [← Except.error.inj h]
      exact justified_of_ne_refused (by simp)
    | ok p =>
      rw [build_of_parse hp] at h
      exact (buildPath_fares hp mode ⟨hf, hroot, hroot⟩).error _ h
  | buildElement mode h => exact (buildElement_fares hf hroot mode).error _ h
  | ensure h => exact (ensure_fares hf hroot).error _ h

end

end XmlPaths

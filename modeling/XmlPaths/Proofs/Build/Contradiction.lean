import XmlPaths.Proofs.Build.Anew
import XmlPaths.Proofs.Build.Continuation

/-!
# Steps that contradict themselves

No element has what a step with contradictory demands asks for, so nothing is ever found for it.
Elements are made for it and the steps behind it nevertheless; the last value of each attribute
counts.  What was made is not found then, unless the path ends with an attribute that the step
before mentions: that is there when it should be made.

* `consistent_of_fits`       what an element has is not contradictory;
* `makeable_of_parse`        something can be made for the steps of a plain expression;
* `follow_anew_result`       what becomes of a run that makes everything anew;
* `build_reuse_result`       what becomes of building.
-/

namespace XmlPaths

open Node

/-! ## contradictory steps lead nowhere -/

namespace Node

/-- What an element has is not contradictory. -/
theorem consistent_of_fits {ns : Namespaces} {s : ChildStep} {n : Node} (h : n.fits ns s = true) :
    Consistent s.comparisons := by
  rw [fits, Bool.and_eq_true, List.all_eq_true] at h
  obtain ⟨hnamed, hmeets⟩ := h
  cases he : n.element? with
  | none =>
    rw [isNamed, he] at hnamed
    exact absurd hnamed (by simp)
  | some e =>
    refine consistent_of_values (fun a => e.attribute? ⟨none, a⟩) fun k hk v hv => ?_
    have hmet := hmeets k hk
    rw [meets, he, Option.any_some, Element.meets, hv] at hmet
    simpa using hmet

theorem consistent_of_mem_reach {ns : Namespaces} {steps : List Step} {m n : Node}
    (h : m ∈ n.reach ns steps) : ∀ s ∈ steps, s.Consistent := by
  induction steps generalizing n with
  | nil => exact fun s hs => absurd hs (by simp)
  | cons s rest ih =>
    cases s with
    | «attribute» a => exact absurd h (by simp [reach])
    | element s =>
      obtain ⟨c, hc, hm⟩ := List.mem_flatMap.1 h
      intro t ht
      rcases List.mem_cons.1 ht with rfl | ht
      · exact consistent_of_fits (List.mem_filter.1 hc).2
      · exact ih hm t ht

/-- Where steps lead somewhere, none of them is contradictory. -/
theorem consistent_of_walk {ns : Namespaces} {steps : List Step}
    (hlast : XPath.AttributeLast steps) {n : Node} (h : n.walk ns steps ≠ []) :
    ∀ s ∈ steps, s.Consistent := by
  induction steps generalizing n with
  | nil => exact fun s hs => absurd hs (by simp)
  | cons s rest ih =>
    cases s with
    | «attribute» a =>
      obtain rfl : rest = [] := hlast
      intro t ht
      rw [List.mem_singleton.1 ht]
      trivial
    | element s =>
      obtain ⟨r, hr⟩ := List.exists_mem_of_ne_nil _ h
      obtain ⟨c, hc, hr⟩ := List.mem_flatMap.1 hr
      intro t ht
      rcases List.mem_cons.1 ht with rfl | ht
      · exact consistent_of_fits (List.mem_filter.1 hc).2
      · exact ih hlast (List.ne_nil_of_mem hr) t ht

end Node

/-! ## steps that something can be made for -/

section
variable {ns : Namespaces}

theorem ChildStep.makeable (hns : ns.refusal? = none) {s : ChildStep}
    (hs : (Step.element s).Admitted) (hcover : ns.Cover [.element s]) :
    (Step.element s).Makeable ns := by
  obtain ⟨hname, hspace⟩ := ChildStep.name_eq hns hs.1 hcover
  refine ⟨s.nameIn ns, hname, ?_⟩
  rw [s.derivedEntries_eq]
  exact elementRefusal?_asked (n := s.nameIn ns) hs.1 hspace hs.2

theorem makeable_of_parse (hns : ns.refusal? = none) {e : String} (he : Plain e) {p : Path}
    (hp : Path.parse e = .ok p) (hcover : ns.Cover p.steps) : ∀ s ∈ p.steps, s.Makeable ns := by
  intro s hs
  have hadmitted := admitted_of_parse he hp s hs
  cases s with
  | «attribute» a => exact hadmitted
  | element s => exact ChildStep.makeable hns hadmitted (hcover.of_mem hs)

/-! ## runs -/

variable {f : Forest} (hf : f.Sound) {x : NodeId} {n : Node} (hx : f.node? x = some n)
  (hn : n.isElement = true)
include hf hx hn

/-- An element is made at the end of the node, and found there. -/
theorem addStep_of_makeable {s : ChildStep} (hs : (Step.element s).Makeable ns) :
    ∃ f', addStep f (.node x) (.element s) ns none = ⟨f', s.conflicts, .ok (.node f.next)⟩ ∧
      f'.Sound ∧ f'.node? f.next = some (s.newNode ns f.next) := by
  rcases addStep_element f x s ns none with ⟨conflicts, failure, -, hfail⟩ |
    ⟨p, -, hp, hfree, hstep⟩
  · refine absurd ?_ (hfail hs (.last x) rfl)
    rw [Forest.Place.refusal?, Forest.isLeaf_of_isElement hx hn, if_neg (by simp)]
  · obtain ⟨q, k, hput, hq, hplace⟩ := Forest.put_eq_grow hf (s.newNode ns f.next) hfree
    obtain rfl := hplace x (Except.ok.inj hp).symm
    exact ⟨_, hput ▸ hstep, hf.insert hq k s ns, Forest.node?_inserted hf hx hn k s ns⟩

omit hf hx hn in
theorem clash_congr {m n : Node} (h : ∀ a, m.hasAttribute a = n.hasAttribute a)
    (steps : List Step) : m.Clash steps ↔ n.Clash steps := by
  simp only [Node.Clash, h]

omit hf hx hn in
/-- Behind a step to an element only what is made for it counts. -/
theorem clash_newNode (n : Node) (ns : Namespaces) (i : NodeId) (s : ChildStep)
    (rest : List Step) : n.Clash (.element s :: rest) ↔ (s.newNode ns i).Clash rest := by
  rw [clash_element n ns i]
  refine clash_congr (fun a => ?_) rest
  rw [Bool.eq_iff_iff, hasAttribute_newElement, hasAttribute_newNode]

omit hf hx hn in
theorem clash_append (n m : Node) {pre : List Step} (hpre : ∀ s ∈ pre, s.isAttribute = false)
    (s : ChildStep) (rest : List Step) :
    n.Clash (pre ++ .element s :: rest) ↔ m.Clash (.element s :: rest) := by
  induction pre generalizing n with
  | nil => rw [List.nil_append, clash_newNode n [] 0, clash_newNode m [] 0]
  | cons t pre ih =>
    obtain ⟨ht, hpre'⟩ := List.forall_mem_cons.1 hpre
    obtain ⟨t, rfl⟩ := Step.exists_eq_element ht
    rw [List.cons_append, clash_newNode n [] 0]
    exact ih _ hpre'

/-- **What becomes of a run that makes everything anew**: it ends with a result, unless the
attribute at the end is there already. -/
theorem follow_anew_result (root : NodeId) {bs : List (String × Step)}
    (hlast : XPath.AttributeLast (bs.map Prod.snd))
    (hsteps : ∀ s ∈ bs.map Prod.snd, s.Makeable ns) :
    (n.Clash (bs.map Prod.snd) → ∃ name a,
      (follow ⟨root, ns, .anew⟩ f (.node x) none bs).result = .error (.attributeExists name a)) ∧
    (¬ n.Clash (bs.map Prod.snd) → ∃ r,
      (follow ⟨root, ns, .anew⟩ f (.node x) none bs).result = .ok r) := by
  induction bs generalizing f x n with
  | nil => exact ⟨fun h => absurd h (not_clash_nil n), fun _ => ⟨_, rfl⟩⟩
  | cons b bs ih =>
    obtain ⟨c, s⟩ := b
    have hs := hsteps s List.mem_cons_self
    rw [List.map_cons] at hlast hsteps ⊢
    rw [follow_anew_cons]
    cases s with
    | element s =>
      obtain ⟨f', hstep, hf', hnew⟩ := addStep_of_makeable hf hx hn hs
      rw [clash_newNode n ns f.next, hstep, Outcome.andThen_ok]
      exact ih hf' hnew rfl hlast fun t ht => hsteps t (List.mem_cons_of_mem _ ht)
    | «attribute» a =>
      obtain rfl : bs = [] := List.map_eq_nil_iff.1 hlast
      rw [List.map_nil, clash_attribute]
      rcases addStep_attribute f x a ns none with ⟨failure, hstep, hfail⟩ |
        ⟨m, -, hm, -, hnew, hstep⟩
      · obtain ⟨hthere, name, rfl⟩ := hfail hs n hx hn
        rw [hstep]
        exact ⟨fun _ => ⟨name, a, rfl⟩, fun ha => absurd hthere ha⟩
      · obtain rfl : m = n := Option.some.inj (hm.symm.trans hx)
        rw [hstep]
        exact ⟨fun ha => absurd ha (by simp [hnew]), fun _ => ⟨_, rfl⟩⟩

end

/-- A run makes everything anew if its lookups don't fail and nothing is led to. -/
theorem Continues.eq_anew {root : NodeId} {ns : Namespaces} {f : Forest} (hf : f.Sound) {n : Node}
    (hn : f.node? root = some n) {steps : List Step} {bs : List (String × Step)}
    {anew : List (String × Step) → Outcome Selected} {o : Outcome Selected}
    (h : Continues ns steps anew bs o)
    (hselects : ∀ b ∈ bs, ∃ rs, selectFrom f root b.1 ns = .ok rs)
    (hdead : ∀ m : Node, m.walk ns steps = []) : o = anew bs := by
  cases h with
  | whole => rfl
  | @failed made rest c s failure hbs hc =>
    obtain ⟨failure, hfailure⟩ := hc
    obtain ⟨rs, hrs⟩ := hselects (c, s) (by rw [hbs]; simp)
    rw [hfailure f root n hf hn] at hrs
    exact absurd hrs (by simp)
  | given hbs hmade hfound =>
    obtain ⟨m, hm⟩ := hfound
    exact absurd (hdead m) hm

/-! ## building -/

section
variable {e : String} (he : Plain e) {p : Path} (hp : Path.parse e = .ok p) {ns : Namespaces}
  (hns : ns.refusal? = none) (hcover : ns.Cover p.steps) {f : Forest} (hf : f.Sound)
  {root : NodeId} {n : Node} (hn : f.node? root = some n) (hel : n.isElement = true)
include he hp hns hcover hf hn hel

/-- Without contradictions there is a result. -/
theorem buildPath_of_consistent (hks : ∀ s ∈ p.steps, s.Consistent) :
    ∃ r, (buildPath ⟨root, ns, .reuse⟩ f p none).result = .ok r := by
  have hbind := hcover.bind
  obtain ⟨found, missing, anchor, hb, -, -, hanchor, hfollow, hstuck⟩ :=
    exists_stuck he hp hns hf hn hbind hel
  cases missing with
  | nil =>
    rw [List.append_nil] at hb
    rw [← hb] at hanchor
    obtain ⟨rs, hselect⟩ := selectFrom_of_found he hp hns hf hn hbind hanchor
    exact ⟨anchor, congrArg Outcome.result (buildPath_of_follow hp hfollow hselect)⟩
  | cons b rest =>
    obtain ⟨c, s⟩ := b
    obtain ⟨m, -, rfl, h⟩ := hstuck c s rest rfl
    have hcover' : ns.Cover (s :: rest.map Prod.snd) := fun t ht => by
      refine hcover t ?_
      rw [← p.map_snd_beginnings, hb, List.map_append]
      exact List.mem_append_right _ ht
    obtain ⟨hbuild, -⟩ := buildPath_of_stuck he hp hns hf hn hbind hks hb hcover' hfollow h
    exact ⟨_, congrArg Outcome.result hbuild⟩

omit hcover hns hel he hf hn in
theorem exists_element_of_not_consistent {found missing : List (String × Step)}
    (hb : p.beginnings = found ++ missing) (hfound : ∀ s ∈ found.map Prod.snd, s.Consistent)
    (hks : ¬ ∀ s ∈ p.steps, s.Consistent) :
    ∃ s rest, missing.map Prod.snd = .element s :: rest := by
  have hlast := Path.attributeLast hp
  rw [← p.map_snd_beginnings, hb, List.map_append] at hlast hks
  cases hsteps : missing.map Prod.snd with
  | nil =>
    rw [hsteps, List.append_nil] at hks
    exact absurd hfound hks
  | cons s rest =>
    cases s with
    | element s => exact ⟨s, rest, rfl⟩
    | «attribute» a =>
      rw [hsteps] at hlast hks
      obtain rfl : rest = [] := hlast.of_append.2
      refine absurd (fun t ht => ?_) hks
      rcases List.mem_append.1 ht with ht | ht
      · exact hfound t ht
      · rw [List.mem_singleton.1 ht]
        trivial

/-- With a contradiction there is no result, for either an attribute is there already, or what was
made is not found. -/
theorem buildPath_of_not_consistent (hks : ¬ ∀ s ∈ p.steps, s.Consistent) :
    (n.Clash p.steps → ∃ name a,
      (buildPath ⟨root, ns, .reuse⟩ f p none).result = .error (.attributeExists name a)) ∧
    (¬ n.Clash p.steps →
      (buildPath ⟨root, ns, .reuse⟩ f p none).result = .error (.notLocated e)) := by
  have hlast := Path.attributeLast hp
  have hbind := hcover.bind
  have hdead : ∀ m : Node, m.walk ns p.steps = [] := fun m => by
    by_contra h
    exact hks (consistent_of_walk hlast h)
  have hmakeable := makeable_of_parse hns he hp hcover
  have hlast' : XPath.AttributeLast (p.beginnings.map Prod.snd) := by
    rwa [p.map_snd_beginnings]
  have hselects : ∀ b ∈ p.beginnings, ∃ rs, selectFrom f root b.1 ns = .ok rs := fun b hb => by
    obtain ⟨before, after, hsplit⟩ := List.append_of_mem hb
    exact ⟨_, selectFrom_beginning he hp hns hbind hsplit hf hn⟩
  rcases follow_reuse (readAs_beginnings hp ns) hlast' hf hn none with ⟨anchor, -, hanchor, -⟩ |
    ⟨b, hb, failure, hfailure, -⟩ | ⟨found, missing, m, names', hb, hm, hnames, hrun, hleading⟩
  · -- all beginnings select something, the whole expression as well
    obtain ⟨rs, hselect⟩ := selectFrom_of_found he hp hns hf hn hbind hanchor
    rw [selectFrom_of_parse hf hn he hp hns hbind, hdead n] at hselect
    exact absurd hselect (by simp)
  · obtain ⟨rs, hrs⟩ := hselects b hb
    rw [hrs] at hfailure
    exact absurd hfailure (by simp)
  obtain rfl := hnames rfl
  obtain ⟨s, rest, hsteps⟩ :=
    exists_element_of_not_consistent hp hb (consistent_of_mem_reach hm) hks
  have hwhole := hrun.eq_anew hf hn (fun b hb' => hselects b (hb ▸ List.mem_append_right _ hb'))
    (p.map_snd_beginnings ▸ hdead)
  have hmem := mem_nodes_of_mem_reach ns hm
  have hnode : f.node? m.id = some m :=
    hf.node?_of_mem ((Forest.nodes_sublist_of_mem (Forest.mem_of_node? hn).1).subset hmem)
  have hall : p.steps = found.map Prod.snd ++ .element s :: rest := by
    rw [← p.map_snd_beginnings, hb, List.map_append, hsteps]
  rw [hall] at hlast hmakeable
  obtain ⟨helements, hlast''⟩ := hlast.of_append
  have hclash : n.Clash p.steps ↔ m.Clash (missing.map Prod.snd) := by
    rw [hall, hsteps]
    exact clash_append n m helements s rest
  rw [← hsteps] at hlast'' hmakeable
  obtain ⟨hfail, hok⟩ := follow_anew_result hf hnode (isElement_of_mem_reach ns hel hm) root hlast''
    fun t ht => hmakeable t (List.mem_append_right _ ht)
  rw [hclash, buildPath]
  rw [hwhole] at hleading ⊢
  constructor
  · intro h
    obtain ⟨name, a, hresult⟩ := hfail h
    exact ⟨name, a, Outcome.result_andThen_of_error _ hresult⟩
  · intro h
    obtain ⟨r, hresult⟩ := hok h
    obtain ⟨hsound, m', hm', -⟩ := hleading r hresult
    have hselect := selectFrom_of_parse hsound hm' he hp hns hbind
    rw [hdead m'] at hselect
    rw [Outcome.result_andThen_of_ok _ hresult, confirm, expression_of_parse hp]
    dsimp only
    rw [hselect]
    rfl

/-- **When building fails, and how**: if and only if a step contradicts itself.  What was made for
the steps is not found then, unless the attribute at the end was there when it should be made. -/
theorem build_reuse_result :
    ((∃ r, (build ⟨root, ns, .reuse⟩ f e).result = .ok r) ↔ ∀ s ∈ p.steps, s.Consistent) ∧
    ((build ⟨root, ns, .reuse⟩ f e).result = .error (.notLocated e) ↔
      (∃ s ∈ p.steps, ¬ s.Consistent) ∧ ¬ n.Clash p.steps) ∧
    ((∃ name a, (build ⟨root, ns, .reuse⟩ f e).result = .error (.attributeExists name a)) ↔
      (∃ s ∈ p.steps, ¬ s.Consistent) ∧ n.Clash p.steps) := by
  have hok := buildPath_of_consistent he hp hns hcover hf hn hel
  have hfail := buildPath_of_not_consistent he hp hns hcover hf hn hel
  rw [build_of_parse hp]
  by_cases hks : ∀ s ∈ p.steps, s.Consistent
  · obtain ⟨r, hr⟩ := hok hks
    have hnone : ¬ ∃ s ∈ p.steps, ¬ s.Consistent := fun ⟨s, hs, h⟩ => h (hks s hs)
    rw [hr]
    refine ⟨⟨fun _ => hks, fun _ => ⟨r, rfl⟩⟩, ⟨fun h => ?_, fun h => absurd h.1 hnone⟩,
      fun h => ?_, fun h => absurd h.1 hnone⟩
    · exact absurd h (by simp)
    · exact absurd h (by simp)
  · have hks' : ∃ s ∈ p.steps, ¬ s.Consistent := by simpa using hks
    by_cases hclash : n.Clash p.steps
    · obtain ⟨name, a, hr⟩ := (hfail hks).1 hclash
      rw [hr]
      simpa [hclash] using hks'
    · rw [(hfail hks).2 hclash]
      simpa [hclash] using hks'

end

/-- Values that don't contradict each other, and ones that do, with another attribute behind them
and with the same one. -/
theorem build_reuse_result_operatorNames :
    (∃ r, (build ⟨0, [("p", "u")], .reuse⟩ operatorNames "p:a[@x='1' and @x]/@x").result =
      .ok r) ∧
    (build ⟨0, [("p", "u")], .reuse⟩ operatorNames "p:a[@x='1' and @x='2']/@y").result =
      .error (.notLocated "p:a[@x='1' and @x='2']/@y") ∧
    ∃ name a, (build ⟨0, [("p", "u")], .reuse⟩ operatorNames "p:a[@x='1' and @x='2']/@x").result =
      .error (.attributeExists name a) := by
  obtain ⟨n, hn, hel⟩ : ∃ n, operatorNames.node? 0 = some n ∧ n.isElement = true :=
    ⟨_, rfl, rfl⟩
  have hcover : ∀ ks a, Namespaces.Cover [("p", "u")]
      [.element ⟨some "p", "a", ks⟩, .attribute a] := by
    intro ks a s hs
    rcases List.mem_cons.1 hs with rfl | hs
    · intro q hq
      obtain rfl : "p" = q := Option.some.inj hq
      exact ⟨"u", rfl, rfl, by decide, by decide⟩
    · rw [List.mem_singleton.1 hs]
      exact fun q hq => absurd hq (by simp [Step.nsPrefix?])
  refine ⟨?_, ?_, ?_⟩
  · obtain ⟨p, hp, hsteps⟩ : ∃ p, Path.parse "p:a[@x='1' and @x]/@x" = .ok p ∧
        p.steps = [.element ⟨some "p", "a", [⟨"x", some "1"⟩, ⟨"x", none⟩]⟩, .attribute "x"] := by
      refine exists_ok_of_toOption_map ?_
      decide +kernel
    refine (build_reuse_result (plain_of_all (by decide) (by decide)) hp rfl (hsteps ▸ hcover _ _)
      sound_operatorNames hn hel).1.2 ?_
    rw [hsteps]
    decide
  · obtain ⟨p, hp, hsteps⟩ : ∃ p, Path.parse "p:a[@x='1' and @x='2']/@y" = .ok p ∧
        p.steps =
          [.element ⟨some "p", "a", [⟨"x", some "1"⟩, ⟨"x", some "2"⟩]⟩, .attribute "y"] := by
      refine exists_ok_of_toOption_map ?_
      decide +kernel
    refine (build_reuse_result (plain_of_all (by decide) (by decide)) hp rfl (hsteps ▸ hcover _ _)
      sound_operatorNames hn hel).2.1.2 ⟨?_, ?_⟩
    · rw [hsteps]
      decide
    · rw [hsteps, clash_element n [] 0, clash_attribute, hasAttribute_newElement]
      decide
  · obtain ⟨p, hp, hsteps⟩ : ∃ p, Path.parse "p:a[@x='1' and @x='2']/@x" = .ok p ∧
        p.steps =
          [.element ⟨some "p", "a", [⟨"x", some "1"⟩, ⟨"x", some "2"⟩]⟩, .attribute "x"] := by
      refine exists_ok_of_toOption_map ?_
      decide +kernel
    refine (build_reuse_result (plain_of_all (by decide) (by decide)) hp rfl (hsteps ▸ hcover _ _)
      sound_operatorNames hn hel).2.2.2 ⟨?_, ?_⟩
    · rw [hsteps]
      decide
    · rw [hsteps, clash_element n [] 0, clash_attribute, hasAttribute_newElement]
      decide

/-- A contradiction is not always met as something that is not found. -/
theorem not_build_reuse_notLocated :
    ¬ ∀ (f : Forest) (root : NodeId) (n : Node) (e : String) (p : Path) (ns : Namespaces),
      f.Sound → f.node? root = some n → n.isElement = true → Plain e → Path.parse e = .ok p →
      ns.refusal? = none → ns.Cover p.steps → (∃ s ∈ p.steps, ¬ s.Consistent) →
      (build ⟨root, ns, .reuse⟩ f e).result = .error (.notLocated e) := by
  intro h
  obtain ⟨p, hp, hsteps⟩ : ∃ p, Path.parse "a[@x='1' and @x='2']/@x" = .ok p ∧
      p.steps = [.element ⟨none, "a", [⟨"x", some "1"⟩, ⟨"x", some "2"⟩]⟩, .attribute "x"] := by
    refine exists_ok_of_toOption_map ?_
    decide +kernel
  have hcover : Namespaces.Cover [] p.steps := by
    rw [hsteps]
    unfold Namespaces.Cover
    decide
  have hks : ∃ s ∈ p.steps, ¬ s.Consistent := by
    rw [hsteps]
    decide
  have hresult := h operatorNames 0 _ _ p [] sound_operatorNames rfl rfl
    (plain_of_all (by decide) (by decide)) hp rfl hcover hks
  exact absurd hresult (by decide +kernel)

end XmlPaths

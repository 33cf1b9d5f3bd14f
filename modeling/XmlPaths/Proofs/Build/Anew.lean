import XmlPaths.Proofs.Build.Following

/-!
# Making everything anew

Whatever there is already, the node that a path begins at gets what the steps describe, unless that
is an attribute which is there: the node's own one, or one that the step before demands.

* `Node.Clash`           the attribute that steps end with is there;
* `follow_anew`          what is made for steps;
* `build_anew_of_plain`   what is made for an expression, and what the expression selects then;
* `not_build_anew_unmapped`   nothing is made for a prefix that isn't mapped.
-/

namespace XmlPaths

/-! ## clashes -/

/-- The steps are a single one to an attribute that the node has, or end with one to an attribute
that the step before demands. -/
def Node.Clash (n : Node) (steps : List Step) : Prop :=
  ∃ a, (steps = [.attribute a] ∧ n.hasAttribute a = true) ∨
    ∃ pre s, steps = pre ++ [.element s, .attribute a] ∧ ∃ k ∈ s.comparisons, k.name = a

theorem clash_attribute (n : Node) (a : String) :
    n.Clash [.attribute a] ↔ n.hasAttribute a = true := by
  constructor
  · rintro ⟨b, ⟨h, hb⟩ | ⟨pre, s, h, -⟩⟩
    · rw [List.cons.injEq, Step.attribute.injEq] at h
      rwa [h.1]
    · have hlength := congrArg List.length h
      rw [List.length_append] at hlength
      exact absurd hlength (by simp)
  · intro h
    exact ⟨a, .inl ⟨rfl, h⟩⟩

theorem not_clash_nil (n : Node) : ¬ n.Clash [] := by
  rintro ⟨a, ⟨h, -⟩ | ⟨pre, s, h, -⟩⟩
  · exact absurd h (by simp)
  · exact absurd h (by simp)

/-- Behind an element step, the new element is the one that counts. -/
theorem clash_element (n : Node) (ns : Namespaces) (i : NodeId) (s : ChildStep)
    (rest : List Step) :
    n.Clash (.element s :: rest) ↔ (s.newElement ns i).Clash rest := by
  constructor
  · rintro ⟨a, ⟨h, -⟩ | ⟨pre, s', h, hk⟩⟩
    · exact absurd h (by simp)
    · cases pre with
      | nil =>
        rw [List.nil_append, List.cons.injEq, Step.element.injEq] at h
        obtain ⟨rfl, rfl⟩ := h
        rw [clash_attribute, Node.hasAttribute_newElement]
        exact hk
      | cons t pre =>
        rw [List.cons_append, List.cons.injEq] at h
        exact ⟨a, .inr ⟨pre, s', h.2, hk⟩⟩
  · rintro ⟨a, ⟨rfl, ha⟩ | ⟨pre, s', rfl, hk⟩⟩
    · rw [Node.hasAttribute_newElement] at ha
      exact ⟨a, .inr ⟨[], s, rfl, ha⟩⟩
    · exact ⟨a, .inr ⟨.element s :: pre, s', rfl, hk⟩⟩

theorem not_clash_of_endsInAttribute {p : Path} (h : p.endsInAttribute = false) (n : Node) :
    ¬ n.Clash p.steps := by
  have hlast : ∀ pre a, p.steps ≠ pre ++ [.attribute a] := by
    intro pre a hsteps
    rw [Path.endsInAttribute, hsteps, List.getLast?_concat] at h
    exact absurd h (by simp [Step.isAttribute])
  rintro ⟨a, ⟨hsteps, -⟩ | ⟨pre, s, hsteps, -⟩⟩
  · exact hlast [] a hsteps
  · refine hlast (pre ++ [.element s]) a ?_
    rw [hsteps, List.append_assoc]
    rfl

theorem exists_lastMade_eq_node {steps : List Step} (h : ∀ s ∈ steps, s.isAttribute = false)
    (i x : NodeId) : ∃ y, lastMade i x steps = .node y := by
  induction steps generalizing i x with
  | nil => exact ⟨x, rfl⟩
  | cons s rest ih =>
    obtain ⟨hs, hrest⟩ := List.forall_mem_cons.1 h
    obtain ⟨s, rfl⟩ := Step.exists_eq_element hs
    exact ih hrest (i + 1) i

theorem elements_of_endsInAttribute {p : Path} (hp : XPath.AttributeLast p.steps)
    (h : p.endsInAttribute = false) : ∀ s ∈ p.steps, s.isAttribute = false := by
  rw [Path.endsInAttribute] at h
  cases hlast : p.steps.getLast? with
  | none =>
    rw [List.getLast?_eq_none_iff.1 hlast]
    exact fun s hs => absurd hs (by simp)
  | some s =>
    obtain ⟨pre, hsteps⟩ := List.getLast?_eq_some_iff.1 hlast
    rw [hlast] at h
    rw [hsteps] at hp ⊢
    intro t ht
    rcases List.mem_append.1 ht with ht | ht
    · exact hp.of_append.1 t ht
    · rw [List.mem_singleton.1 ht]
      exact h

/-! ## following -/

section
variable {ns : Namespaces} (root : NodeId)

/-- **What is made for steps**: the node is extended.  If the attribute at the end is there already,
that is met when the elements have been made. -/
theorem follow_anew {bs : List (String × Step)} (hlast : XPath.AttributeLast (bs.map Prod.snd))
    (hsteps : ∀ s ∈ bs.map Prod.snd, s.Feasible ns) {f : Forest} (hf : f.Sound) {x : NodeId}
    {n : Node} (hx : f.node? x = some n) (hn : n.isElement = true) :
    (n.Clash (bs.map Prod.snd) → ∃ name a, follow ⟨root, ns, .anew⟩ f (.node x) none bs =
      .fail (f.extend ns x (bs.map Prod.snd)) (.attributeExists name a)) ∧
    (¬ n.Clash (bs.map Prod.snd) → follow ⟨root, ns, .anew⟩ f (.node x) none bs =
      .done (f.extend ns x (bs.map Prod.snd)) (lastMade f.next x (bs.map Prod.snd))) := by
  induction bs generalizing f x n with
  | nil =>
    refine ⟨fun h => absurd h (not_clash_nil n), fun _ => ?_⟩
    rw [List.map_nil, f.extend_nil hf ns hx]
    rfl
  | cons b bs ih =>
    obtain ⟨c, s⟩ := b
    have hs := hsteps s List.mem_cons_self
    have hnone : Site.existing? ⟨root, ns, .anew⟩ f c = .ok none := rfl
    rw [List.map_cons] at hlast hsteps ⊢
    cases s with
    | element s =>
      have hrest := ih hlast (fun t ht => hsteps t (List.mem_cons_of_mem _ ht))
        (hf.extend ns hx hn [.element s]) (f.node?_new hf ns hx hn s) rfl
      rw [follow_element hf hx hn hnone bs hs, clash_element n ns f.next,
        ← f.extend_extend hf ns x s (bs.map Prod.snd)]
      exact hrest
    | «attribute» a =>
      have hbs : bs = [] := List.map_eq_nil_iff.1 hlast
      rw [hbs, List.map_nil, clash_attribute]
      constructor
      · intro ha
        cases hel : n.element? with
        | none => exact absurd hn (by simp [Node.isElement, hel])
        | some e =>
          refine ⟨e.name, a, ?_⟩
          rw [f.extend_of_hasAttribute hf ns hx ha, follow, hnone]
          dsimp only
          rw [addStep_of_hasAttribute hx hel ha, Outcome.andThen_fail]
      · intro ha
        rw [follow_attribute hf hx hn hnone [] hs (Bool.eq_false_iff.2 ha)]
        rfl

end

/-! ## building -/

section
variable {f : Forest} (hf : f.Sound) {root : NodeId} {n : Node} (hn : f.node? root = some n)
  (hel : n.isElement = true) {e : String} (he : Plain e) {p : Path} (hp : Path.parse e = .ok p)
  {ns : Namespaces} (hns : ns.refusal? = none) (hcover : ns.Cover p.steps)
  (hks : ∀ s ∈ p.steps, s.Consistent)
include hf hn hel he hp hns hcover hks

theorem selectFrom_extend (hclash : ¬ n.Clash p.steps) :
    selectFrom (f.extend ns root p.steps) root e ns =
      .ok (n.walk ns p.steps ++ [lastMade f.next root p.steps]) := by
  have hlast := attributeLast_of_parse he hp
  have hselect := selectFrom_of_parse (hf.extend ns hn hel p.steps)
    (f.node?_extend_self hf ns hn hel p.steps) he hp hns hcover.bind
  have hid : n.id = root := (Forest.mem_of_node? hn).2
  obtain ⟨s, rest, hsteps⟩ := List.exists_cons_of_ne_nil (steps_ne_nil_of_parse he hp)
  rw [hsteps] at hlast hclash hks hselect ⊢
  have hnew : ∀ a, s = .attribute a → n.hasAttribute a = false := by
    rintro a rfl
    have hrest : rest = [] := hlast
    rw [hrest, clash_attribute] at hclash
    exact Bool.eq_false_iff.2 hclash
  rw [hselect, Node.walk_extend ns (fun t ht => hks _ ht) f.next hel hnew, hid]

theorem buildPath_anew :
    (n.Clash p.steps → ∃ name a, buildPath ⟨root, ns, .anew⟩ f p none =
      ⟨f.extend ns root p.steps, [], .error (.attributeExists name a)⟩) ∧
    (¬ n.Clash p.steps → buildPath ⟨root, ns, .anew⟩ f p none =
      ⟨f.extend ns root p.steps, [], .ok (lastMade f.next root p.steps)⟩) := by
  have hfeasible := feasible_of_parse hns he hp (List.Subset.refl _) hcover hks
  have hlast := attributeLast_of_parse he hp
  rw [← p.map_snd_beginnings] at hfeasible hlast
  obtain ⟨hfail, hdone⟩ := follow_anew root hlast hfeasible hf hn hel
  rw [p.map_snd_beginnings] at hfail hdone
  constructor
  · intro hclash
    obtain ⟨name, a, hfollow⟩ := hfail hclash
    refine ⟨name, a, ?_⟩
    rw [buildPath, hfollow]
    rfl
  · intro hclash
    have hselect := selectFrom_extend hf hn hel he hp hns hcover hks hclash
    obtain ⟨r, rs, hr⟩ := List.exists_cons_of_ne_nil
      (List.append_ne_nil_of_right_ne_nil (n.walk ns p.steps)
        (List.cons_ne_nil (lastMade f.next root p.steps) []))
    rw [hr] at hselect
    exact buildPath_of_follow hp (hdone hclash) hselect

end

end XmlPaths

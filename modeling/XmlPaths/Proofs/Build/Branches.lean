import XmlPaths.Proofs.Build.Additions
import XmlPaths.Proofs.Build.Contradiction
import XmlPaths.Proofs.Build.Repetition
import XmlPaths.Proofs.Build.Siblings

/-!
# Branches in other places

Names of siblings count for a first step that nothing is found for, and only for the place of what
is made.  What a run does is the same for all numbers of children in front of the new branch: it
looks up and makes what it would look up and make anywhere else.

* `Forest.sprout`            a forest with a new branch among the children of a node;
* `Sprouts`                  outcomes that are told by the place of a new branch only;
* `Lost`, `Lost.made`        where a run goes on when nothing is found, and one turn of it;
* `follow_lost`              what it makes then doesn't depend on the forest;
* `follow_sprouts`, `confirm_sprout`   a run, and the look at its result;
* `buildElement_behind_names`   what names of siblings change.
-/

namespace XmlPaths

open Node

/-! ## branches -/

/-- the forest with a branch for the step and the ones behind it, with `k` children or all of them
in front of it -/
def Forest.sprout (f : Forest) (x : NodeId) (k : Nat) (ns : Namespaces) (s : ChildStep)
    (rest : List Step) : Forest :=
  f.grow x (insertAt k ((s.newNode ns f.next).spread ns (f.next + 1) rest))
    (f.next + 1 + rest.length)

section
variable {f : Forest} (hf : f.Sound) {x : NodeId} {n : Node} (hx : f.node? x = some n)
  (hn : n.isElement = true)
include hf hx hn

/-- A chain of new elements is sound. -/
theorem Forest.Sound.grow_spread (ns : Namespaces) {steps : List Step}
    (hsteps : ∀ s ∈ steps, s.isAttribute = false) :
    (f.grow x (spread ns f.next steps) (f.next + steps.length)).Sound := by
  induction steps generalizing f x n with
  | nil => exact (f.grow_spread_nil x ns).symm ▸ hf
  | cons s rest ih =>
    obtain ⟨hs, hrest⟩ := List.forall_mem_cons.1 hsteps
    obtain ⟨s, rfl⟩ := Step.exists_eq_element hs
    have hleaf := Forest.isLeaf_of_isElement hx hn
    have hgrown := ih (hf.insert hleaf n.children.length s ns)
      (Forest.node?_inserted hf hx hn _ s ns) rfl hrest
    rw [Forest.grow_congr hf hx (spread_element ns f.next s rest n), List.length_cons,
      Nat.add_comm rest.length 1, ← Nat.add_assoc, ← Forest.grow_insertAt hf.toWellFormed]
    exact hgrown

variable (k : Nat) (ns : Namespaces) (s : ChildStep) {rest : List Step}
  (hrest : ∀ t ∈ rest, t.isAttribute = false)
include hrest

theorem Forest.Sound.sprout : (f.sprout x k ns s rest).Sound := by
  rw [Forest.sprout, ← Forest.grow_insertAt hf.toWellFormed]
  exact (hf.insert (Forest.isLeaf_of_isElement hx hn) k s ns).grow_spread
    (Forest.node?_inserted hf hx hn k s ns) rfl ns hrest

theorem Forest.node?_sprout : (f.sprout x k ns s rest).node? x =
    some (insertAt k ((s.newNode ns f.next).spread ns (f.next + 1) rest) n) := by
  obtain ⟨-, hid⟩ := mem_of_node? hx
  have hfound := node?_grow hf (hf.sprout hx hn k ns s hrest) hx (hid ▸ n.id_mem_ids)
    fun m hm => (id_insertAt k _ m).trans hm
  rwa [update_self hid] at hfound

end

/-! ## outcomes that are told by a place -/

/-- Outcomes for any number of children in front of a new branch, which differ in nothing but its
place: nothing was made, or a branch for the step and some of the `rest`.  If there is a result, it
is for all of them. -/
inductive Sprouts {α : Type} (f : Forest) (x : NodeId) (ns : Namespaces) (s : ChildStep)
    (rest : List Step) : (Nat → Outcome α) → Prop where
  | failed (conflicts : List Conflict) (failure : Failure) :
      Sprouts f x ns s rest fun _ => ⟨f, conflicts, .error failure⟩
  | made {steps : List Step} {result : Except Failure α} (hsteps : steps <+: rest)
      (hall : ∀ a, result = .ok a → steps = rest) (conflicts : List Conflict) :
      Sprouts f x ns s rest fun k => ⟨f.sprout x k ns s steps, conflicts, result⟩

theorem Sprouts.result_eq {α : Type} {f : Forest} {x : NodeId} {ns : Namespaces} {s : ChildStep}
    {rest : List Step} {outcome : Nat → Outcome α} (h : Sprouts f x ns s rest outcome)
    (k k' : Nat) : (outcome k).result = (outcome k').result := by
  cases h <;> rfl

/-- What goes on with a result leaves the forest as it is, and is the same for every place. -/
theorem Sprouts.andThen {α β : Type} {f : Forest} {x : NodeId} {ns : Namespaces} {s : ChildStep}
    {rest : List Step} {outcome : Nat → Outcome α} (h : Sprouts f x ns s rest outcome)
    {next : Forest → α → Outcome β}
    (hnext : ∀ a, ∃ conflicts result, ∀ k, next (f.sprout x k ns s rest) a =
      ⟨f.sprout x k ns s rest, conflicts, result⟩) :
    Sprouts f x ns s rest fun k => (outcome k).andThen next := by
  cases h with
  | failed conflicts failure => exact .failed conflicts failure
  | @made steps result hsteps hall conflicts =>
    cases result with
    | error failure => exact .made hsteps (fun a ha => absurd ha (by simp)) conflicts
    | ok a =>
      obtain rfl := hall a rfl
      obtain ⟨conflicts', result', hsame⟩ := hnext a
      have houtcome : (fun k => (⟨f.sprout x k ns s steps, conflicts, .ok a⟩ : Outcome α).andThen
          next) = fun k => ⟨f.sprout x k ns s steps, conflicts ++ conflicts', result'⟩ := by
        funext k
        rw [Outcome.andThen_ok, hsame k]
      rw [houtcome]
      exact .made hsteps (fun _ _ => rfl) _

/-! ## one turn in any place -/

/-- Whether a new element is made for a step doesn't depend on where there is a place for it. -/
theorem addStep_anywhere (s : ChildStep) (ns : Namespaces) :
    (∃ conflicts failure, ∀ f x names, addStep f (.node x) (.element s) ns names =
      ⟨f, conflicts, .error failure⟩) ∨
    ∀ f x names p, placeOf f x names ns = .ok p → p.refusal? f = none →
      addStep f (.node x) (.element s) ns names =
        ⟨f.put (s.newNode ns f.next) p, s.conflicts, .ok (.node f.next)⟩ := by
  by_cases hs : (Step.element s).Makeable ns
  · refine .inr fun f x names p hp hfree => ?_
    rcases addStep_element f x s ns names with ⟨_, _, -, hfail⟩ | ⟨p', -, hp', -, hstep⟩
    · exact absurd hfree (hfail hs p hp)
    · rwa [Except.ok.inj (hp.symm.trans hp')]
  · left
    simp only [addStep, addElement, ChildStep.blueprint]
    cases hname : s.name ns with
    | error failure => exact ⟨[], failure, fun f x names => rfl⟩
    | ok m =>
      cases hrefusal : elementRefusal? m s.derivedEntries with
      | none => exact absurd ⟨m, hname, hrefusal⟩ hs
      | some r =>
        rw [ChildStep.derivedEntries] at hrefusal
        refine ⟨s.conflicts, .refused r, fun f x names => ?_⟩
        dsimp only
        rw [hrefusal]
        rfl

/-- Where a run goes on from an element when nothing is found for the `next` step. -/
structure Lost (root : NodeId) (ns : Namespaces) (pre : List Step) (next : Option Step)
    (f : Forest) (n : Node) (x : NodeId) : Prop extends Astray root pre f n x where
  isElement : ∃ m, f.node? x = some m ∧ m.isElement = true
  missing : ∀ s ∈ next, n.walk ns (pre ++ [s]) = []

section
variable {root : NodeId} {ns : Namespaces} {pre : List Step} {f : Forest} {n : Node} {x : NodeId}

/-- **One turn of a run** in any place: nothing is found for a further element step. -/
theorem Lost.made {s : ChildStep} (h : Lost root ns pre (some (.element s)) f n x) (k : Nat)
    {next : Option Step} (hnext : ∀ t ∈ next, t.isAttribute = false) :
    Lost root ns (pre ++ [.element s]) next
      (f.grow x (insertAt k (s.newNode ns f.next)) (f.next + 1))
      (n.update x (insertAt k (s.newNode ns f.next))) f.next := by
  obtain ⟨m, hm, hel⟩ := h.isElement
  refine ⟨h.toAstray.made (Forest.isLeaf_of_isElement hm hel) h.below k s ns,
    ⟨_, Forest.node?_inserted h.sound hm hel k s ns, rfl⟩, fun t ht => ?_⟩
  have hnone : (s.newNode ns f.next).walk ns [t] = [] := by
    obtain ⟨t, rfl⟩ := Step.exists_eq_element (hnext t ht)
    rfl
  rw [List.append_assoc, List.singleton_append]
  rcases walk_insert ns h.nodup_ids h.elements h.below (h.missing _ rfl) k
    (s.newNode ns f.next) with hnil | hwalk
  · exact hnil [t]
  · rw [hwalk, hnone]

/-- Something is made if the expression can be evaluated. -/
theorem Lost.follow_of_readable {s : ChildStep} (h : Lost root ns pre (some (.element s)) f n x)
    {c : String} (hc : Readable ns c (pre ++ [.element s])) (rest : List (String × Step)) :
    follow ⟨root, ns, .reuse⟩ f (.node x) none ((c, .element s) :: rest) =
      (addStep f (.node x) (.element s) ns none).andThen fun f' made =>
        follow ⟨root, ns, .reuse⟩ f' made none rest := by
  have hselect := hc f root n h.sound h.node
  rw [h.missing _ rfl] at hselect
  exact follow_of_missing _ _ _ _ hselect

/-- **What is made when nothing is found**, from the identity `i` on, doesn't depend on what there
is besides: it is a chain of new elements for some of the steps, and for all of them if there is a
result. -/
theorem follow_lost (root : NodeId) {bs : List (String × Step)} (hread : ReadAs ns pre bs)
    (helements : ∀ s ∈ bs.map Prod.snd, s.isAttribute = false) (x i : NodeId) :
    ∃ made conflicts result, made <+: bs.map Prod.snd ∧
      (∀ r, result = .ok r → made = bs.map Prod.snd) ∧
      ∀ f n, Lost root ns pre (bs.map Prod.snd).head? f n x → f.next = i →
        follow ⟨root, ns, .reuse⟩ f (.node x) none bs =
          ⟨f.grow x (spread ns i made) (i + made.length), conflicts, result⟩ := by
  induction bs generalizing pre x i with
  | nil =>
    refine ⟨[], [], .ok (.node x), List.nil_prefix, fun r _ => rfl, ?_⟩
    rintro f n - rfl
    exact congrArg (Outcome.mk · [] _) (f.grow_spread_nil x ns).symm
  | cons b rest ih =>
    obtain ⟨c, s⟩ := b
    rcases hread.head with hc | ⟨failure, hc⟩
    swap
    · refine ⟨[], [], .error failure, List.nil_prefix, fun r hr => absurd hr (by simp), ?_⟩
      rintro f n h rfl
      rw [follow_of_error _ _ _ _ (hc f root n h.sound h.node)]
      exact congrArg (Outcome.mk · [] _) (f.grow_spread_nil x ns).symm
    obtain ⟨hs, hrest⟩ := List.forall_mem_cons.1 helements
    obtain ⟨s, rfl⟩ := Step.exists_eq_element hs
    rcases addStep_anywhere s ns with ⟨conflicts, failure, hfail⟩ | hstep
    · refine ⟨[], conflicts, .error failure, List.nil_prefix, fun r hr => absurd hr (by simp), ?_⟩
      rintro f n h rfl
      rw [h.follow_of_readable hc, hfail, Outcome.andThen_error]
      exact congrArg (Outcome.mk · conflicts _) (f.grow_spread_nil x ns).symm
    · -- in every forest the first new element is `i`, and nothing is found for what is behind it
      obtain ⟨made, conflicts, result, hmade, hall, hrun⟩ := ih hread.tail hrest i (i + 1)
      refine ⟨.element s :: made, s.conflicts ++ conflicts, result,
        List.cons_prefix_cons.2 ⟨rfl, hmade⟩, fun r hr => ?_, ?_⟩
      · rw [hall r hr]
        rfl
      rintro f n h rfl
      obtain ⟨m, hm, hel⟩ := h.isElement
      have hplace := Forest.Place.among_last h.sound hm hel
      have hlost := h.made m.children.length fun t ht => hrest t (List.mem_of_mem_head? ht)
      have hgrow : f.grow x (insertAt m.children.length (s.newNode ns f.next)) (f.next + 1) =
          f.grow x (spread ns f.next [.element s]) (f.next + 1) :=
        Forest.grow_congr h.sound hm (spread_element ns f.next s [] m).symm
      rw [h.follow_of_readable hc, hstep f x none _ rfl hplace.free, Outcome.andThen_ok,
        hplace.put, hrun _ _ hlost rfl, hgrow]
      dsimp only
      rw [Forest.grow_spread h.sound.toWellFormed, List.length_cons, Nat.add_assoc,
        Nat.add_comm 1]

/-! ## a run, and the look at its result -/

variable (hf : f.Sound) (hn : f.node? root = some n) (hel : n.isElement = true)
include hf hn hel

/-- **A run whose first step leads nowhere** is told by the place of what is made for it. -/
theorem follow_sprouts {c : String} {s : ChildStep} {rest : List (String × Step)}
    (hread : ReadAs ns [] ((c, .element s) :: rest))
    (hrest : ∀ t ∈ rest.map Prod.snd, t.isAttribute = false)
    (hmissing : selectFrom f root c ns = .ok []) :
    ∃ outcome, Sprouts f root ns s (rest.map Prod.snd) outcome ∧
      ∀ names p k, placeOf f root names ns = .ok p → p.Among f root k →
        follow ⟨root, ns, .reuse⟩ f (.node root) names ((c, .element s) :: rest) = outcome k := by
  rcases addStep_anywhere s ns with ⟨conflicts, failure, hfail⟩ | hstep
  · refine ⟨_, .failed conflicts failure, fun names p k _ _ => ?_⟩
    rw [follow_of_missing _ _ _ _ hmissing, hfail, Outcome.andThen_error]
  · obtain ⟨made, conflicts, result, hmade, hall, hrun⟩ :=
      follow_lost root hread.tail hrest f.next (f.next + 1)
    refine ⟨_, .made hmade hall (s.conflicts ++ conflicts), fun names p k hp hamong => ?_⟩
    have hlost : Lost root ns [] (some (.element s)) f n root := by
      refine ⟨⟨hf, hn, fun t ht => absurd ht (by simp), List.not_mem_nil⟩, ⟨n, hn, hel⟩, ?_⟩
      intro t ht
      rw [← Option.some.inj ht]
      exact walk_of_selectFrom hread.head hf hn hmissing
    have hmade' := hlost.made k fun t ht => hrest t (List.mem_of_mem_head? ht)
    rw [follow_of_missing _ _ _ _ hmissing, hstep f root names p hp hamong.free,
      Outcome.andThen_ok, hamong.put, hrun _ _ hmade' rfl]
    dsimp only
    rw [Forest.grow_insertAt hf.toWellFormed]
    rfl

/-- What is looked up behind a new branch doesn't depend on its place. -/
theorem selectFrom_sprout {e : String} {s : ChildStep} {rest : List Step}
    (hread : Readable ns e (.element s :: rest) ∨ Unreadable ns e)
    (hrest : ∀ t ∈ rest, t.isAttribute = false) (hnone : n.walk ns [.element s] = []) :
    ∃ selected, ∀ k, selectFrom (f.sprout root k ns s rest) root e ns = selected := by
  have hsound := fun k => hf.sprout hn hel k ns s hrest
  have hfound := fun k => Forest.node?_sprout hf hn hel k ns s hrest
  rcases hread with hread | ⟨failure, hfailure⟩
  · have hselect := fun k => hread _ root _ (hsound k) (hfound k)
    simp only [walk_insertAt ns hel hnone] at hselect
    exact ⟨_, hselect⟩
  · exact ⟨_, fun k => hfailure _ root _ (hsound k) (hfound k)⟩

theorem confirm_sprout {e : String} {s : ChildStep} {rest : List Step}
    (hread : Readable ns e (.element s :: rest) ∨ Unreadable ns e)
    (hrest : ∀ t ∈ rest, t.isAttribute = false) (hnone : n.walk ns [.element s] = [])
    (built : Selected) :
    ∃ conflicts result, ∀ k, confirm ⟨root, ns, .reuse⟩ (f.sprout root k ns s rest) e built =
      ⟨f.sprout root k ns s rest, conflicts, result⟩ := by
  obtain ⟨selected, hselect⟩ := selectFrom_sprout hf hn hel hread hrest hnone
  simp only [confirm, hselect]
  cases selected with
  | error failure => exact ⟨[], .error failure, fun k => rfl⟩
  | ok rs =>
    cases rs with
    | nil => exact ⟨[], .error (.notLocated e), fun k => rfl⟩
    | cons r rs => exact ⟨[], .ok built, fun k => rfl⟩

end

/-! ## building -/

theorem requireElement_sprout (f : Forest) (x : NodeId) (ns : Namespaces) (s : ChildStep)
    (rest : List Step) (built : Selected) :
    ∃ conflicts result, ∀ k, requireElement (f.sprout x k ns s rest) built =
      ⟨f.sprout x k ns s rest, conflicts, result⟩ := by
  cases built with
  | node y => exact ⟨[], .ok y, fun k => rfl⟩
  | «attribute» h => exact ⟨[], .error (.refused .notAnElement), fun k => rfl⟩
  | text t => exact ⟨[], .error (.refused .notAnElement), fun k => rfl⟩

/-- Names count for a first step that nothing is found for, and for nothing else. -/
theorem follow_of_not_missing {root : NodeId} {ns : Namespaces} {f : Forest} {c : String}
    (h : selectFrom f root c ns ≠ .ok []) (context : Selected) (s : Step)
    (rest : List (String × Step)) (names names' : Option (List String)) :
    follow ⟨root, ns, .reuse⟩ f context names ((c, s) :: rest) =
      follow ⟨root, ns, .reuse⟩ f context names' ((c, s) :: rest) := by
  cases hselect : selectFrom f root c ns with
  | error failure => rw [follow_of_error _ _ _ _ hselect, follow_of_error _ _ _ _ hselect]
  | ok rs =>
    cases rs with
    | nil => exact absurd hselect h
    | cons r rs => rw [follow_of_found _ _ _ _ hselect, follow_of_found _ _ _ _ hselect]

section
variable {e : String} {p : Path} (hp : Path.parse e = .ok p) (hends : p.endsInAttribute = false)
include hp hends

/-- A path to an element begins with a step to one. -/
theorem exists_beginnings_eq_cons : ∃ c s rest, p.beginnings = (c, .element s) :: rest ∧
    ∀ t ∈ rest.map Prod.snd, t.isAttribute = false := by
  have helements := elements_of_endsInAttribute (Path.attributeLast hp) hends
  have hne := Path.steps_ne_nil hp
  rw [← p.map_snd_beginnings] at helements hne
  cases hb : p.beginnings with
  | nil => exact absurd (by rw [hb]; rfl) hne
  | cons b rest =>
    obtain ⟨c, s⟩ := b
    rw [hb] at helements
    obtain ⟨hs, hrest⟩ := List.forall_mem_cons.1 helements
    obtain ⟨s, rfl⟩ := Step.exists_eq_element hs
    exact ⟨c, s, rest, rfl, hrest⟩

variable {ns : Namespaces} {f : Forest} (hf : f.Sound) {root : NodeId} {n : Node}
  (hn : f.node? root = some n) (hel : n.isElement = true)
include hf hn hel

/-- Building an element whose first step leads nowhere is told by the place of what is made. -/
theorem buildElement_sprouts {c : String} {s : ChildStep} {rest : List (String × Step)}
    (hb : p.beginnings = (c, .element s) :: rest)
    (hrest : ∀ t ∈ rest.map Prod.snd, t.isAttribute = false)
    (hmissing : selectFrom f root c ns = .ok []) :
    ∃ outcome, Sprouts f root ns s (rest.map Prod.snd) outcome ∧
      ∀ names q k, placeOf f root names ns = .ok q → q.Among f root k →
        buildElement ⟨root, ns, .reuse⟩ f e names = outcome k := by
  have hread := readAs_beginnings hp ns
  rw [hb] at hread
  have hnone : n.walk ns [.element s] = [] := walk_of_selectFrom hread.head hf hn hmissing
  have hwhole := readable_or_unreadable hp ns
  rw [← p.map_snd_beginnings, hb, List.map_cons] at hwhole
  obtain ⟨outcome, houtcome, hrun⟩ := follow_sprouts hf hn hel hread hrest hmissing
  have hconfirmed : Sprouts f root ns s (rest.map Prod.snd) fun k =>
      (outcome k).andThen fun f' built => confirm ⟨root, ns, .reuse⟩ f' e built :=
    houtcome.andThen (confirm_sprout hf hn hel hwhole hrest hnone)
  have hrequired := hconfirmed.andThen fun built => requireElement_sprout f root ns s _ built
  refine ⟨_, hrequired, fun names q k hq hamong => ?_⟩
  rw [buildElement_of_parse hp hends, buildPath, hb, hrun names q k hq hamong,
    expression_of_parse hp]

theorem exists_buildElement_of_plain (he : Plain e) (hns : ns.refusal? = none)
    (hcover : ns.Cover p.steps) (hks : ∀ s ∈ p.steps, s.Consistent) :
    ∃ x, (buildElement ⟨root, ns, .reuse⟩ f e none).result = .ok x := by
  obtain ⟨r, hr⟩ := buildPath_of_consistent he hp hns hcover hf hn hel hks
  obtain ⟨-, -, m, rs, -, hwalk, -⟩ := walk_of_buildPath hp hf hn hr
  have helements := elements_of_endsInAttribute (Path.attributeLast hp) hends
  rw [walk_eq_reach ns helements] at hwalk
  obtain ⟨y, -, rfl⟩ := List.mem_map.1 (hwalk ▸ List.mem_cons_self : r ∈ List.map _ _)
  refine ⟨y.id, ?_⟩
  rw [buildElement_of_parse hp hends, Outcome.result_andThen_of_ok _ hr]
  rfl

end

/-- a document whose root has children of alternating names -/
def alternatingNames : Forest :=
  ⟨[⟨0, true, .element 0 ⟨⟨none, "div"⟩, [], none⟩
    [.element 1 ⟨⟨some "u", "and"⟩, [], none⟩ [] none,
      .element 2 ⟨⟨none, "or"⟩, [], none⟩ [] (some " "),
      .element 3 ⟨⟨some "u", "and"⟩, [], none⟩ [] none,
      .element 4 ⟨⟨none, "or"⟩, [], none⟩ [] none] none⟩], 5⟩

theorem sound_alternatingNames : alternatingNames.Sound where
  nodup := by decide
  lt_next := by decide
  attributes := by decide

end XmlPaths

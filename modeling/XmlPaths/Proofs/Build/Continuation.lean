import XmlPaths.Proofs.Build.Reuse
import XmlPaths.Proofs.Selection.Legible
import XmlPaths.Proofs.Selection.Levels

/-!
# Going on where nothing was found

A run that found nothing for a step makes something for it, and goes on looking up each longer
beginning.  Since what is made is below what was reached, the lookups find nothing but what the run
itself made: it does what a run would do that makes everything anew, up to a lookup that fails or
finds an attribute that was made along with its element.

* `Astray`               what the node that a run goes on from is to the steps that it is behind;
* `Continues`            how such a run is related to one that makes everything anew;
* `Leading`              if there is a result, the steps lead to it or nowhere;
* `Astray.continues`     that is how a run goes on;
* `follow_reuse`         the beginnings that are found, and where nothing is found.
-/

namespace XmlPaths

open Node

/-! ## the place of a run -/

/-- Where a run goes on: the node `x` is none of those above the level that the steps `pre` lead
down to from the node `n`, where the path begins.  It need not be what they lead to. -/
structure Astray (root : NodeId) (pre : List Step) (f : Forest) (n : Node) (x : NodeId) : Prop where
  sound : f.Sound
  node : f.node? root = some n
  elements : ∀ s ∈ pre, s.isAttribute = false
  below : x ∉ n.within pre.length

namespace Astray

variable {root : NodeId} {pre : List Step} {f : Forest} {n : Node} {x : NodeId}
  (h : Astray root pre f n x)
include h

theorem nodup_ids : n.ids.Nodup := h.sound.nodup_ids h.node

/-- What is below all that steps reached is below what one more step is made for. -/
theorem made {q : NodeId} (hq : f.isLeaf q = false) (hbelow : q ∉ n.within pre.length) (k : Nat)
    (s : ChildStep) (ns : Namespaces) :
    Astray root (pre ++ [.element s])
      (f.grow q (insertAt k (s.newNode ns f.next)) (f.next + 1))
      (n.update q (insertAt k (s.newNode ns f.next))) f.next where
  sound := h.sound.insert hq k s ns
  node := Forest.node?_insert h.sound hq k s ns h.node
  elements := elements_concat h.elements s
  below := by
    rw [List.length_append, List.length_singleton, within_update (id_insertAt k _) hbelow]
    intro hmem
    have hids : n.ids ⊆ f.ids :=
      ((Forest.nodes_sublist_of_mem (Forest.mem_of_node? h.node).1).map Node.id).subset
    exact Forest.fresh_next h.sound.toWellFormed (hids (within_subset _ n hmem))

end Astray

/-! ## the lookups of a run -/

section
variable {root : NodeId} {ns : Namespaces} {f : Forest} {c : String}

theorem existing?_of_error {failure : Failure} (h : selectFrom f root c ns = .error failure) :
    Site.existing? ⟨root, ns, .reuse⟩ f c = .error failure := by
  rw [Site.existing?]
  dsimp only
  rw [h]
  rfl

variable (context : Selected) (names : Option (List String)) (s : Step)
  (rest : List (String × Step))

theorem follow_anew_cons : follow ⟨root, ns, .anew⟩ f context names ((c, s) :: rest) =
    (addStep f context s ns names).andThen fun f' made =>
      follow ⟨root, ns, .anew⟩ f' made none rest := rfl

theorem follow_of_error {failure : Failure} (h : selectFrom f root c ns = .error failure) :
    follow ⟨root, ns, .reuse⟩ f context names ((c, s) :: rest) = .fail f failure := by
  rw [follow, existing?_of_error h]

theorem follow_of_missing (h : selectFrom f root c ns = .ok []) :
    follow ⟨root, ns, .reuse⟩ f context names ((c, s) :: rest) =
      (addStep f context s ns names).andThen fun f' made =>
        follow ⟨root, ns, .reuse⟩ f' made none rest := by
  rw [follow, existing?_of_selectFrom h]
  rfl

theorem follow_of_found {r : Selected} {rs : List Selected}
    (h : selectFrom f root c ns = .ok (r :: rs)) :
    follow ⟨root, ns, .reuse⟩ f context names ((c, s) :: rest) =
      follow ⟨root, ns, .reuse⟩ f r none rest := by
  rw [follow, existing?_of_selectFrom h]
  rfl

end

/-! ## going on -/

namespace Outcome

variable {α β : Type} (f : Forest) (conflicts : List Conflict) (next : Forest → α → Outcome β)

theorem andThen_ok (a : α) : (⟨f, conflicts, .ok a⟩ : Outcome α).andThen next =
    { next f a with conflicts := conflicts ++ (next f a).conflicts } := rfl

theorem andThen_error (e : Failure) :
    (⟨f, conflicts, .error e⟩ : Outcome α).andThen next = ⟨f, conflicts, .error e⟩ := rfl

variable {o : Outcome α}

theorem result_andThen_of_error {e : Failure} (h : o.result = .error e) :
    (o.andThen next).result = .error e := by
  rw [andThen, h]

theorem result_andThen_of_ok {a : α} (h : o.result = .ok a) :
    (o.andThen next).result = (next o.forest a).result := by
  rw [andThen, h]

theorem forest_andThen_done (o : Outcome α) (b : β) :
    (o.andThen fun f _ => done f b).forest = o.forest := by
  obtain ⟨f, conflicts, result⟩ := o
  cases result <;> rfl

theorem forest_andThen_of_ok {a : α} (h : o.result = .ok a) :
    (o.andThen next).forest = (next o.forest a).forest := by
  rw [andThen, h]

end Outcome

/-- The outcome of a run over `bs`, told by those of runs that make everything `anew`: it goes on to
the end, a lookup fails, or what `steps` lead to is found, an attribute of what was just made. -/
inductive Continues (ns : Namespaces) (steps : List Step)
    (anew : List (String × Step) → Outcome Selected) (bs : List (String × Step)) :
    Outcome Selected → Prop where
  | whole : Continues ns steps anew bs (anew bs)
  | failed {made rest : List (String × Step)} {c : String} {s : Step} {failure : Failure}
      (hbs : bs = made ++ (c, s) :: rest) (hc : Unreadable ns c) :
      Continues ns steps anew bs { anew made with result := .error failure }
  | given {made : List (String × Step)} {c : String} {a : String} {y : NodeId}
      (hbs : bs = made ++ [(c, .attribute a)]) (hmade : (anew made).result = .ok (.node y))
      (hfound : ∃ m : Node, m.walk ns steps ≠ []) :
      Continues ns steps anew bs { anew made with result := .ok (.attribute ⟨y, a⟩) }

section
variable {root : NodeId} {ns : Namespaces}

/-- one turn more in front of a run -/
theorem Continues.cons {f f' : Forest} {x : NodeId} {s : Step} {names : Option (List String)}
    {conflicts : List Conflict} {first : Selected}
    (hstep : addStep f (.node x) s ns names = ⟨f', conflicts, .ok first⟩) {steps : List Step}
    {bs : List (String × Step)} {o : Outcome Selected}
    (h : Continues ns steps (follow ⟨root, ns, .anew⟩ f' first none) bs o) (c : String) :
    Continues ns steps (follow ⟨root, ns, .anew⟩ f (.node x) names) ((c, s) :: bs)
      { o with conflicts := conflicts ++ o.conflicts } := by
  have hturn : ∀ bs', follow ⟨root, ns, .anew⟩ f (.node x) names ((c, s) :: bs') =
      { follow ⟨root, ns, .anew⟩ f' first none bs' with
        conflicts := conflicts ++ (follow ⟨root, ns, .anew⟩ f' first none bs').conflicts } := by
    intro bs'
    rw [follow_anew_cons, hstep, Outcome.andThen_ok]
  cases h with
  | whole =>
    rw [← hturn]
    exact .whole
  | @failed made rest c' s' failure hbs hc =>
    have hlonger : Continues ns steps (follow ⟨root, ns, .anew⟩ f (.node x) names) ((c, s) :: bs)
        { follow ⟨root, ns, .anew⟩ f (.node x) names ((c, s) :: made) with
          result := .error failure } := .failed (by rw [hbs]; rfl) hc
    rw [hturn] at hlonger
    exact hlonger
  | @given made c' a y hbs hmade hfound =>
    have hlonger : Continues ns steps (follow ⟨root, ns, .anew⟩ f (.node x) names) ((c, s) :: bs)
        { follow ⟨root, ns, .anew⟩ f (.node x) names ((c, s) :: made) with
          result := .ok (.attribute ⟨y, a⟩) } :=
      .given (by rw [hbs]; rfl) (by rw [hturn]; exact hmade) hfound
    rw [hturn] at hlonger
    exact hlonger

/-- What is known about the result of a run: if there is one, the steps lead to it or nowhere. -/
def Leading (root : NodeId) (ns : Namespaces) (steps : List Step) (o : Outcome Selected) : Prop :=
  ∀ r, o.result = .ok r → o.forest.Sound ∧ ∃ m, o.forest.node? root = some m ∧
    (m.walk ns steps = [] ∨ m.walk ns steps = [r])

theorem leading_of_error {steps : List Step} {o : Outcome Selected} (failure : Failure)
    (h : o.result = .error failure) : Leading root ns steps o := by
  intro r hr
  rw [h] at hr
  exact absurd hr (by simp)

theorem Leading.of_result {steps : List Step} {o o' : Outcome Selected}
    (h : Leading root ns steps o) (hforest : o'.forest = o.forest)
    (hresult : o'.result = o.result) : Leading root ns steps o' := by
  intro r hr
  rw [hforest]
  exact h r (hresult ▸ hr)

/-- A run whose first lookup fails has made nothing. -/
theorem continues_of_unreadable {steps : List Step} {f : Forest} {n : Node} (hf : f.Sound)
    (hn : f.node? root = some n) {c : String} (hc : Unreadable ns c) (context : Selected)
    (names : Option (List String)) (s : Step) (rest : List (String × Step)) :
    Continues ns steps (follow ⟨root, ns, .anew⟩ f context names) ((c, s) :: rest)
        (follow ⟨root, ns, .reuse⟩ f context names ((c, s) :: rest)) ∧
      Leading root ns steps (follow ⟨root, ns, .reuse⟩ f context names ((c, s) :: rest)) := by
  obtain ⟨failure, hfailure⟩ := id hc
  have hfirst : Continues ns steps (follow ⟨root, ns, .anew⟩ f context names) ((c, s) :: rest)
      { follow ⟨root, ns, .anew⟩ f context names [] with result := .error failure } :=
    .failed (List.nil_append _).symm hc
  rw [follow_of_error context names s rest (hfailure f root n hf hn)]
  exact ⟨hfirst, leading_of_error failure rfl⟩

/-- An attribute that was made along with its element is found, if the lookup doesn't fail. -/
theorem follow_given {pre : List Step} {f : Forest} {n : Node} {x : NodeId} {a c : String}
    (hf : f.Sound) (hn : f.node? root = some n)
    (hread : Readable ns c (pre ++ [.attribute a]) ∨ Unreadable ns c)
    (hwalk : n.walk ns (pre ++ [.attribute a]) = [.attribute ⟨x, a⟩]) :
    Continues ns (pre ++ [.attribute a]) (follow ⟨root, ns, .anew⟩ f (.node x) none)
        [(c, .attribute a)] (follow ⟨root, ns, .reuse⟩ f (.node x) none [(c, .attribute a)]) ∧
      Leading root ns (pre ++ [.attribute a])
        (follow ⟨root, ns, .reuse⟩ f (.node x) none [(c, .attribute a)]) := by
  rcases hread with hread | hread
  · have hselect := hread f root n hf hn
    rw [hwalk] at hselect
    have hdone : follow ⟨root, ns, .reuse⟩ f (.node x) none [(c, .attribute a)] =
        .done f (.attribute ⟨x, a⟩) := by
      rw [follow_of_found _ _ _ _ hselect]
      rfl
    have hgiven : Continues ns (pre ++ [.attribute a]) (follow ⟨root, ns, .anew⟩ f (.node x) none)
        [(c, .attribute a)] { follow ⟨root, ns, .anew⟩ f (.node x) none [] with
          result := .ok (.attribute ⟨x, a⟩) } :=
      .given (List.nil_append _).symm rfl ⟨n, by rw [hwalk]; simp⟩
    rw [hdone]
    refine ⟨hgiven, fun r hr => ⟨hf, n, hn, .inr ?_⟩⟩
    rw [hwalk, Except.ok.inj hr]
  · exact continues_of_unreadable hf hn hread _ _ _ _

/-- One turn for an element: it fails, or the new element is all that the step can lead to. -/
theorem Astray.addStep_element {pre : List Step} {f : Forest} {n : Node} {x : NodeId}
    (h : Astray root pre f n x) {names : Option (List String)} (hnames : names = none ∨ pre = [])
    {s : ChildStep} (hnone : n.walk ns (pre ++ [.element s]) = []) :
    (∃ conflicts failure, addStep f (.node x) (.element s) ns names =
      ⟨f, conflicts, .error failure⟩) ∨
    ∃ f' n', addStep f (.node x) (.element s) ns names = ⟨f', s.conflicts, .ok (.node f.next)⟩ ∧
      Astray root (pre ++ [.element s]) f' n' f.next ∧
      ((∀ rest, n'.walk ns (pre ++ .element s :: rest) = []) ∨
        ∀ rest, n'.walk ns (pre ++ .element s :: rest) =
          (s.newNode ns f.next).walk ns rest) := by
  rcases XmlPaths.addStep_element f x s ns names with ⟨conflicts, failure, hfail, -⟩ |
    ⟨p, -, hp, hfree, hstep⟩
  · exact .inl ⟨conflicts, failure, hfail⟩
  obtain ⟨q, k, hput, hq, hplace⟩ := Forest.put_eq_grow h.sound (s.newNode ns f.next) hfree
  have hbelow : q ∉ n.within pre.length := by
    rcases hnames with rfl | rfl
    · rw [hplace x (Except.ok.inj hp).symm]
      exact h.below
    · exact List.not_mem_nil
  rw [hput] at hstep
  exact .inr ⟨_, _, hstep, h.made hq hbelow k s ns,
    walk_insert ns h.nodup_ids h.elements hbelow hnone k (s.newNode ns f.next)⟩

/-- The last turn, for an attribute that is not found. -/
theorem Astray.continues_attribute {pre : List Step} {f : Forest} {n : Node} {x : NodeId}
    (h : Astray root pre f n x) (names : Option (List String)) {c a : String}
    (hselect : selectFrom f root c ns = .ok [])
    (hnone : n.walk ns (pre ++ [.attribute a]) = []) :
    Continues ns (pre ++ [.attribute a]) (follow ⟨root, ns, .anew⟩ f (.node x) names)
        [(c, .attribute a)] (follow ⟨root, ns, .reuse⟩ f (.node x) names [(c, .attribute a)]) ∧
      Leading root ns (pre ++ [.attribute a])
        (follow ⟨root, ns, .reuse⟩ f (.node x) names [(c, .attribute a)]) := by
  have hsame : follow ⟨root, ns, .reuse⟩ f (.node x) names [(c, .attribute a)] =
      follow ⟨root, ns, .anew⟩ f (.node x) names [(c, .attribute a)] :=
    follow_of_missing _ _ _ _ hselect
  rw [hsame]
  refine ⟨.whole, ?_⟩
  rw [follow_anew_cons]
  rcases addStep_attribute f x a ns names with ⟨failure, hstep, -⟩ | ⟨m, -, hm, hel, ha, hstep⟩
  · rw [hstep]
    exact leading_of_error failure rfl
  · rw [hstep]
    intro r hr
    refine ⟨h.sound.addAttribute hm hel ha, _, Forest.node?_addAttribute h.sound hm hel ha
      h.node, ?_⟩
    rw [← Except.ok.inj hr]
    exact walk_addAttribute ns h.nodup_ids h.elements h.below hnone

/-- **How a run goes on where nothing is found.**  The names count for the first step of a path
only. -/
theorem Astray.continues {pre : List Step} {bs : List (String × Step)} (hread : ReadAs ns pre bs)
    (hlast : XPath.AttributeLast (bs.map Prod.snd)) {f : Forest} {n : Node} {x : NodeId}
    (h : Astray root pre f n x) {names : Option (List String)} (hnames : names = none ∨ pre = [])
    (hne : bs ≠ []) (hnone : ∀ s ∈ bs.head?.map Prod.snd, n.walk ns (pre ++ [s]) = []) :
    Continues ns (pre ++ bs.map Prod.snd) (follow ⟨root, ns, .anew⟩ f (.node x) names) bs
        (follow ⟨root, ns, .reuse⟩ f (.node x) names bs) ∧
      Leading root ns (pre ++ bs.map Prod.snd)
        (follow ⟨root, ns, .reuse⟩ f (.node x) names bs) := by
  induction bs generalizing pre f n x names with
  | nil => exact absurd rfl hne
  | cons b rest ih =>
    obtain ⟨c, s⟩ := b
    have hnone' := hnone s rfl
    rcases hread.head with hc | hc
    swap
    · exact continues_of_unreadable h.sound h.node hc _ _ _ _
    have hselect := hc f root n h.sound h.node
    rw [hnone'] at hselect
    cases s with
    | «attribute» a =>
      obtain rfl : rest = [] := List.map_eq_nil_iff.1 hlast
      exact h.continues_attribute names hselect hnone'
    | element s =>
      have hrun := follow_of_missing (.node x) names (.element s) rest hselect
      rcases h.addStep_element hnames hnone' with ⟨conflicts, failure, hstep⟩ |
        ⟨f', n', hstep, hmade, hwalk⟩
      · have hsame : follow ⟨root, ns, .reuse⟩ f (.node x) names ((c, .element s) :: rest) =
            follow ⟨root, ns, .anew⟩ f (.node x) names ((c, .element s) :: rest) := by
          rw [hrun, follow_anew_cons, hstep, Outcome.andThen_error, Outcome.andThen_error]
        refine ⟨by rw [hsame]; exact .whole, leading_of_error failure ?_⟩
        rw [hrun, hstep, Outcome.andThen_error]
      rw [hstep, Outcome.andThen_ok] at hrun
      have hsteps : pre ++ ((c, Step.element s) :: rest).map Prod.snd =
          (pre ++ [.element s]) ++ rest.map Prod.snd := by
        rw [List.map_cons, List.append_assoc, List.singleton_append]
      rw [hsteps, hrun]
      suffices hrest : Continues ns ((pre ++ [.element s]) ++ rest.map Prod.snd)
          (follow ⟨root, ns, .anew⟩ f' (.node f.next) none) rest
          (follow ⟨root, ns, .reuse⟩ f' (.node f.next) none rest) ∧
          Leading root ns ((pre ++ [.element s]) ++ rest.map Prod.snd)
            (follow ⟨root, ns, .reuse⟩ f' (.node f.next) none rest) from
        ⟨hrest.1.cons hstep c, hrest.2.of_result rfl rfl⟩
      cases rest with
      | nil =>
        refine ⟨.whole, fun r hr => ⟨hmade.sound, n', hmade.node, ?_⟩⟩
        rw [← Except.ok.inj hr, List.map_nil, List.append_nil]
        exact hwalk.imp (fun hnil => hnil []) fun hnew => hnew []
      | cons d rest =>
        obtain ⟨d, t⟩ := d
        by_cases hnext : n'.walk ns ((pre ++ [.element s]) ++ [t]) = []
        · exact ih hread.tail hlast hmade (.inl rfl) (by simp) fun t' ht' => by
            rw [← Option.some.inj ht']
            exact hnext
        · -- what is found is an attribute of the new element
          have hfound : n'.walk ns ((pre ++ [.element s]) ++ [t]) =
              (s.newNode ns f.next).walk ns [t] := by
            rw [List.append_assoc, List.singleton_append] at hnext ⊢
            rcases hwalk with hnil | hnew
            · exact absurd (hnil [t]) hnext
            · exact hnew [t]
          rcases walk_newNode s ns f.next t with hnil | ⟨a, rfl, -, hattribute⟩
          · exact absurd (hfound.trans hnil) hnext
          · obtain rfl : rest = [] := List.map_eq_nil_iff.1 hlast
            exact follow_given hmade.sound hmade.node hread.tail.head (hfound.trans hattribute)

/-! ## what is found first -/

theorem exists_found (root : NodeId) (ns : Namespaces) (f : Forest) (bs : List (String × Step)) :
    ∃ found missing, bs = found ++ missing ∧
      (∀ b ∈ found, ∃ r rs, selectFrom f root b.1 ns = .ok (r :: rs)) ∧
      ∀ b ∈ missing.head?, ∀ r rs, selectFrom f root b.1 ns ≠ .ok (r :: rs) := by
  induction bs with
  | nil => exact ⟨[], [], rfl, fun b hb => absurd hb (by simp), fun b hb => absurd hb (by simp)⟩
  | cons b bs ih =>
    by_cases h : ∃ r rs, selectFrom f root b.1 ns = .ok (r :: rs)
    · obtain ⟨found, missing, rfl, hfound, hmissing⟩ := ih
      refine ⟨b :: found, missing, rfl, fun b' hb' => ?_, hmissing⟩
      rcases List.mem_cons.1 hb' with rfl | hb'
      · exact h
      · exact hfound b' hb'
    · refine ⟨[], b :: bs, rfl, fun b' hb' => absurd hb' (by simp), fun b' hb' r rs hselect => ?_⟩
      obtain rfl : b = b' := Option.some.inj hb'
      exact h ⟨r, rs, hselect⟩

/-- Beginnings that select something are passed by, and with the first one the names. -/
theorem follow_found_names {f : Forest} (context : Selected) (names : Option (List String))
    {found : List (String × Step)}
    (hfound : ∀ b ∈ found, ∃ r rs, selectFrom f root b.1 ns = .ok (r :: rs))
    (missing : List (String × Step)) :
    ∃ anchor, (found = [] → anchor = context) ∧
      (∀ b ∈ found.getLast?, ∃ rs, selectFrom f root b.1 ns = .ok (anchor :: rs)) ∧
      follow ⟨root, ns, .reuse⟩ f context names (found ++ missing) =
        follow ⟨root, ns, .reuse⟩ f anchor (if found = [] then names else none) missing := by
  cases found with
  | nil =>
    refine ⟨context, fun _ => rfl, fun b hb => absurd hb (by simp), ?_⟩
    rw [if_pos rfl, List.nil_append]
  | cons b found =>
    obtain ⟨anchor, -, hlast, hfollow⟩ := follow_found context hfound missing
    refine ⟨anchor, fun h => absurd h (by simp), hlast, ?_⟩
    obtain ⟨r, rs, hselect⟩ := hfound b List.mem_cons_self
    obtain ⟨c, s⟩ := b
    rw [if_neg (by simp), ← hfollow, List.cons_append, follow_of_found _ _ _ _ hselect,
      follow_of_found _ _ _ _ hselect]

theorem walk_of_selectFrom {c : String} {steps : List Step}
    (hread : Readable ns c steps ∨ Unreadable ns c) {f : Forest} (hf : f.Sound) {n : Node}
    (hn : f.node? root = some n) {rs : List Selected} (h : selectFrom f root c ns = .ok rs) :
    n.walk ns steps = rs := by
  rcases hread with hread | ⟨failure, hfailure⟩
  · have hwalk := hread f root n hf hn
    rw [h] at hwalk
    exact (Except.ok.inj hwalk).symm
  · rw [hfailure f root n hf hn] at h
    exact absurd h (by simp)

/-- What the first thing is that element steps lead to, if a lookup finds it. -/
theorem exists_mem_reach_of_head {steps : List Step}
    (helements : ∀ s ∈ steps, s.isAttribute = false) {n : Node} {anchor : Selected}
    {rs : List Selected} (h : n.walk ns steps = anchor :: rs) :
    ∃ m ∈ n.reach ns steps, anchor = .node m.id := by
  rw [walk_eq_reach ns helements] at h
  have hanchor : anchor ∈ (n.reach ns steps).map (.node ·.id) := by
    rw [h]
    exact List.mem_cons_self
  obtain ⟨m, hm, hm'⟩ := List.mem_map.1 hanchor
  exact ⟨m, hm, hm'.symm⟩

/-- **What a run does that looks up what is there**: everything is found, the first lookup that
finds nothing fails, or the run goes on from what was found last. -/
theorem follow_reuse {bs : List (String × Step)} (hread : ReadAs ns [] bs)
    (hlast : XPath.AttributeLast (bs.map Prod.snd)) {f : Forest} (hf : f.Sound) {n : Node}
    (hn : f.node? root = some n) (names : Option (List String)) :
    (∃ anchor, (bs = [] → anchor = .node root) ∧
      (∀ b ∈ bs.getLast?, ∃ rs, selectFrom f root b.1 ns = .ok (anchor :: rs)) ∧
      follow ⟨root, ns, .reuse⟩ f (.node root) names bs = .done f anchor) ∨
    (∃ b ∈ bs, ∃ failure, selectFrom f root b.1 ns = .error failure ∧
      follow ⟨root, ns, .reuse⟩ f (.node root) names bs = .fail f failure) ∨
    ∃ found missing m names', bs = found ++ missing ∧ m ∈ n.reach ns (found.map Prod.snd) ∧
      (names = none → names' = none) ∧
      Continues ns (bs.map Prod.snd) (follow ⟨root, ns, .anew⟩ f (.node m.id) names') missing
        (follow ⟨root, ns, .reuse⟩ f (.node root) names bs) ∧
      Leading root ns (bs.map Prod.snd) (follow ⟨root, ns, .reuse⟩ f (.node root) names bs) := by
  obtain ⟨found, missing, hbs, hfound, hmissing⟩ := exists_found root ns f bs
  obtain ⟨anchor, hnil, hanchor, hfollow⟩ :=
    follow_found_names (.node root) names hfound missing
  rw [← hbs] at hfollow
  cases missing with
  | nil =>
    rw [List.append_nil] at hbs
    rw [hbs] at hfollow ⊢
    exact .inl ⟨anchor, hnil, hanchor, hfollow⟩
  | cons b rest =>
    obtain ⟨c, s⟩ := b
    rw [hbs] at hread hlast
    rw [List.map_append, List.map_cons] at hlast
    cases hselect : selectFrom f root c ns with
    | error failure =>
      refine .inr (.inl ⟨(c, s), by simp [hbs], failure, hselect, ?_⟩)
      rw [hfollow, follow_of_error _ _ _ _ hselect]
    | ok rs =>
      have hrs : rs = [] := by
        cases rs with
        | nil => rfl
        | cons r rs => exact absurd hselect (hmissing (c, s) rfl r rs)
      have helements := hlast.of_append.1
      have hread' : ReadAs ns (found.map Prod.snd) ((c, s) :: rest) := hread.of_append
      have hwalk : n.walk ns (found.map Prod.snd ++ [s]) = [] :=
        (walk_of_selectFrom hread'.head hf hn hselect).trans hrs
      obtain ⟨m, hm, rfl⟩ : ∃ m ∈ n.reach ns (found.map Prod.snd), anchor = .node m.id := by
        rcases List.eq_nil_or_concat' found with rfl | ⟨init, d, rfl⟩
        · refine ⟨n, List.mem_singleton_self n, ?_⟩
          rw [hnil rfl, (Forest.mem_of_node? hn).2]
        · obtain ⟨rs', hselect'⟩ := hanchor d (by rw [List.getLast?_concat]; rfl)
          have hread'' := hread init d.1 d.2 ((c, s) :: rest)
            (by rw [List.append_assoc, List.singleton_append])
          rw [List.map_append, List.map_singleton] at helements ⊢
          exact exists_mem_reach_of_head helements (walk_of_selectFrom hread'' hf hn hselect')
      have hastray : Astray root (found.map Prod.snd) f n m.id :=
        ⟨hf, hn, helements, not_mem_within_of_mem_reach ns (hf.nodup_ids hn) hm⟩
      have hnames : (if found = [] then names else none) = none ∨ found.map Prod.snd = [] := by
        by_cases h : found = []
        · exact .inr (by rw [h, List.map_nil])
        · exact .inl (if_neg h)
      have hrun := hastray.continues hread' hlast.of_append.2 hnames (by simp) fun t ht => by
        rw [← Option.some.inj ht]
        exact hwalk
      rw [← hfollow, ← List.map_append, ← hbs] at hrun
      refine .inr (.inr ⟨found, (c, s) :: rest, m, _, hbs, hm, fun h => ?_, hrun⟩)
      rw [h, ite_self]

end

end XmlPaths

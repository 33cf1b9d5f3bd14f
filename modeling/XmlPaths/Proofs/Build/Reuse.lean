import XmlPaths.Proofs.Build.Following

/-!
# Making what is missing

Each beginning of an expression is looked up from the node that the path begins at, not from what
was found for the beginning before.  Still only what the steps behind the last found one describe is
made: a beginning that selects nothing is part of no longer one that does, and of an element that
was just made the next beginning selects what that element itself was given.

* `Stuck`, `Stuck.made`   where a run stands when something is missing, and one turn of it;
* `follow_found`        beginnings that select something;
* `follow_missing`      what is made for beginnings that select nothing;
* `exists_stuck`, `buildPath_of_stuck`   where the run along an expression stands, and how it ends;
* `build_reuse_of_plain`   what is made for an expression, and what the expression selects then;
* `not_build_reuse_unmapped`   nothing is made for a prefix that isn't mapped.
-/

namespace XmlPaths

open Node

/-! ## elements that were just made -/

section
variable (ns : Namespaces)

/-- A new element leads on to an attribute that its step demands, and to nothing else. -/
theorem walk_newElement (s : ChildStep) (i : NodeId) (t : Step) :
    (s.newElement ns i).walk ns [t] = [] ∨
      ∃ a, t = .attribute a ∧ (s.newElement ns i).hasAttribute a = true := by
  cases t with
  | element t => exact .inl rfl
  | «attribute» a =>
    by_cases h : (s.newElement ns i).hasAttribute a = true
    · exact .inr ⟨a, rfl, h⟩
    · left
      rw [walk, if_neg h]

/-- Where a step led nowhere, further steps lead on from the new element only. -/
theorem walk_extend_element {s : ChildStep} (hs : Consistent s.comparisons) (i : NodeId)
    {m : Node} (hm : m.isElement = true) (hnone : m.walk ns [.element s] = [])
    (rest : List Step) :
    (m.extend ns i [.element s]).walk ns (.element s :: rest) =
      (s.newElement ns i).walk ns rest := by
  cases m with
  | leaf j l t => exact absurd hm (by simp [isElement, element?])
  | element j e cs t =>
    have hfits : (s.newElement ns i).fits ns s = true := fits_newElement ns hs i
    have hold := walk_cons_of_nil ns hnone rest
    rw [walk, childrenAt, children] at hold
    show ((cs ++ [s.newElement ns i]).filter (fits ns s)).flatMap (walk ns rest) = _
    rw [List.filter_append, List.filter_cons_of_pos hfits, List.filter_nil, List.flatMap_append,
      hold, List.nil_append, List.flatMap_singleton]

theorem newElement_mem_reach {pre : List Step} {s : ChildStep} (hs : Consistent s.comparisons)
    (i : NodeId) {m n : Node} (hn : n.ids.Nodup) (hm : m ∈ n.reach ns pre)
    (hel : m.isElement = true) :
    s.newElement ns i ∈
      (n.update m.id (Node.extend ns i [.element s])).reach ns (pre ++ [.element s]) := by
  have hkeep : ∀ s', m.fits ns s' = true → (m.extend ns i [.element s]).fits ns s' = true :=
    fun s' hs' => fits_extend ns hs'
  obtain ⟨before, after, -, hreach⟩ := reach_update ns hn hm rfl hkeep
  have hmem : m.extend ns i [.element s] ∈
      (n.update m.id (Node.extend ns i [.element s])).reach ns pre := by
    rw [hreach]
    exact List.mem_append_right _ List.mem_cons_self
  rw [reach_append]
  refine List.mem_flatMap.2 ⟨_, hmem, List.mem_filter.2 ⟨?_, fits_newElement ns hs i⟩⟩
  cases m with
  | leaf j l t => exact absurd hel (by simp [isElement, element?])
  | element j e cs t => exact List.mem_append_right _ List.mem_cons_self

theorem isElement_of_mem_reach {pre : List Step} {m n : Node} (hn : n.isElement = true)
    (hm : m ∈ n.reach ns pre) : m.isElement = true := by
  induction pre generalizing n with
  | nil =>
    rw [List.mem_singleton.1 hm]
    exact hn
  | cons s pre ih =>
    cases s with
    | «attribute» a => exact absurd hm (by simp [reach])
    | element s =>
      obtain ⟨c, hc, hm⟩ := List.mem_flatMap.1 hm
      have hfits := (List.mem_filter.1 hc).2
      refine ih ?_ hm
      rw [fits, Bool.and_eq_true, isNamed] at hfits
      rw [isElement]
      cases he : c.element? with
      | none =>
        rw [he] at hfits
        exact absurd hfits.1 (by simp)
      | some e => rfl

end

/-! ## the invariant of a run -/

/-- Where a run stands when something is missing: from the node `n`, where the path begins, the
steps `pre` reach the element `m`, and behind them the step `next` leads nowhere. -/
structure Stuck (root : NodeId) (ns : Namespaces) (pre : List Step) (next : Option Step)
    (f : Forest) (n m : Node) : Prop where
  sound : f.Sound
  node : f.node? root = some n
  elements : ∀ s ∈ pre, s.isAttribute = false
  reached : m ∈ n.reach ns pre
  isElement : m.isElement = true
  missing : ∀ s ∈ next, n.walk ns (pre ++ [s]) = []

namespace Stuck

variable {root : NodeId} {ns : Namespaces} {pre : List Step} {f : Forest} {n m : Node}

theorem node?_reached {next : Option Step} (h : Stuck root ns pre next f n m) :
    f.node? m.id = some m := by
  have hmem := (Forest.mem_of_node? h.node).1
  exact h.sound.node?_of_mem
    ((Forest.nodes_sublist_of_mem hmem).subset (mem_nodes_of_mem_reach ns h.reached))

section
variable {s : Step} (h : Stuck root ns pre (some s) f n m)
include h

theorem walk_eq_nil : m.walk ns [s] = [] := by
  have hnone := h.missing s rfl
  rw [walk_append ns h.elements, List.flatMap_eq_nil_iff] at hnone
  exact hnone m h.reached

theorem hasAttribute_eq_false {a : String} (hs : s = .attribute a) : m.hasAttribute a = false := by
  have hdead := h.walk_eq_nil
  rw [Bool.eq_false_iff]
  intro ha
  rw [hs, walk, if_pos ha] at hdead
  exact absurd hdead (by simp)

/-- When `m` is extended, further steps lead on from there only. -/
theorem walk_extended (i : NodeId) (steps rest : List Step) :
    (n.update m.id (Node.extend ns i steps)).walk ns (pre ++ s :: rest) =
      (m.extend ns i steps).walk ns (s :: rest) := by
  have hkeep : ∀ s', m.fits ns s' = true → (m.extend ns i steps).fits ns s' = true :=
    fun s' hs' => fits_extend ns hs'
  exact walk_update ns h.elements (h.sound.nodup_ids h.node) h.reached rfl hkeep
    (h.missing s rfl) rest

/-- What was made for all further steps is all that they lead to then. -/
theorem walk_all {rest : List Step}
    (hks : ∀ t, Step.element t ∈ s :: rest → Consistent t.comparisons) (i : NodeId) :
    (n.update m.id (Node.extend ns i (s :: rest))).walk ns (pre ++ s :: rest) =
      [lastMade i m.id (s :: rest)] := by
  rw [h.walk_extended, walk_extend ns hks i h.isElement fun a => h.hasAttribute_eq_false,
    walk_cons_of_nil ns h.walk_eq_nil rest, List.nil_append]

end

section
variable {s : ChildStep} (h : Stuck root ns pre (some (.element s)) f n m)
  (hs : Consistent s.comparisons)
include h hs

theorem walk_made (rest : List Step) :
    (n.update m.id (Node.extend ns f.next [.element s])).walk ns ((pre ++ [.element s]) ++ rest) =
      (s.newElement ns f.next).walk ns rest := by
  rw [List.append_assoc, List.singleton_append, h.walk_extended]
  exact walk_extend_element ns hs f.next h.isElement h.walk_eq_nil rest

/-- **One turn of a run**: with the step the new element is reached. -/
theorem made {next : Option Step}
    (hnext : ∀ t ∈ next, (s.newElement ns f.next).walk ns [t] = []) :
    Stuck root ns (pre ++ [.element s]) next (f.extend ns m.id [.element s])
      (n.update m.id (Node.extend ns f.next [.element s])) (s.newElement ns f.next) where
  sound := h.sound.extend ns h.node?_reached h.isElement [.element s]
  node := f.node?_extend h.sound ns h.node?_reached h.isElement h.node
    (List.mem_map_of_mem (mem_nodes_of_mem_reach ns h.reached)) [.element s]
  elements := elements_concat h.elements s
  reached := newElement_mem_reach ns hs f.next (h.sound.nodup_ids h.node) h.reached h.isElement
  isElement := rfl
  missing := fun t ht => by rw [h.walk_made hs, hnext t ht]

end

end Stuck

/-! ## following -/

/-- the pairs of a path and a step that are left to be followed, behind the steps `pre`; each
expression selects what its steps lead to -/
def Selecting (root : NodeId) (ns : Namespaces) (pre : List Step)
    (bs : List (String × Step)) : Prop :=
  ∀ before c s after, bs = before ++ (c, s) :: after → ∀ f n, Forest.Sound f →
    f.node? root = some n →
      selectFrom f root c ns = .ok (n.walk ns (pre ++ (before.map Prod.snd ++ [s])))

section
variable {root : NodeId} {ns : Namespaces}

theorem Selecting.head {pre : List Step} {c : String} {s : Step} {bs : List (String × Step)}
    (h : Selecting root ns pre ((c, s) :: bs)) {f : Forest} (hf : f.Sound) {n : Node}
    (hn : f.node? root = some n) : selectFrom f root c ns = .ok (n.walk ns (pre ++ [s])) :=
  h [] c s bs rfl f n hf hn

theorem Selecting.tail {pre : List Step} {c : String} {s : Step} {bs : List (String × Step)}
    (h : Selecting root ns pre ((c, s) :: bs)) : Selecting root ns (pre ++ [s]) bs := by
  intro before d t after hbs f n hf hn
  have hselect := h ((c, s) :: before) d t after (by rw [hbs]; rfl) f n hf hn
  rw [hselect, List.map_cons, List.cons_append, List.append_assoc]
  rfl

theorem Selecting.of_append {pre : List Step} {before bs : List (String × Step)}
    (h : Selecting root ns pre (before ++ bs)) :
    Selecting root ns (pre ++ before.map Prod.snd) bs := by
  induction before generalizing pre with
  | nil =>
    rw [List.map_nil, List.append_nil]
    exact h
  | cons b before ih =>
    rw [List.map_cons, ← List.singleton_append, ← List.append_assoc]
    exact ih h.tail

theorem Selecting.exists_split {pre : List Step} {bs : List (String × Step)}
    (h : Selecting root ns pre bs) (hlast : XPath.AttributeLast (pre ++ bs.map Prod.snd))
    {f : Forest} (hf : f.Sound) {n : Node} (hn : f.node? root = some n) :
    ∃ found missing, bs = found ++ missing ∧
      (∀ b ∈ found, ∃ r rs, selectFrom f root b.1 ns = .ok (r :: rs)) ∧
      ∀ b ∈ missing, selectFrom f root b.1 ns = .ok [] := by
  induction bs generalizing pre with
  | nil => exact ⟨[], [], rfl, fun b hb => absurd hb (by simp), fun b hb => absurd hb (by simp)⟩
  | cons b bs ih =>
    obtain ⟨c, s⟩ := b
    have hselect := h.head hf hn
    cases hwalk : n.walk ns (pre ++ [s]) with
    | cons r rs =>
      have hlast' : XPath.AttributeLast ((pre ++ [s]) ++ bs.map Prod.snd) := by
        rw [List.append_assoc]
        exact hlast
      obtain ⟨found, missing, hbs, hfound, hmissing⟩ := ih h.tail hlast'
      refine ⟨(c, s) :: found, missing, by rw [hbs]; rfl, fun b hb => ?_, hmissing⟩
      rcases List.mem_cons.1 hb with rfl | hb
      · rw [hwalk] at hselect
        exact ⟨r, rs, hselect⟩
      · exact hfound b hb
    | nil =>
      refine ⟨[], (c, s) :: bs, rfl, fun b hb => absurd hb (by simp), fun b hb => ?_⟩
      rcases List.mem_cons.1 hb with rfl | hb
      · rw [hwalk] at hselect
        exact hselect
      · obtain ⟨before, after, rfl⟩ := List.append_of_mem hb
        have hlater := h ((c, s) :: before) b.1 b.2 after rfl f n hf hn
        rw [List.map_cons, List.cons_append, walk_append_of_nil ns hlast.of_append.1 hwalk] at hlater
        exact hlater

theorem existing?_of_selectFrom {f : Forest} {c : String} {rs : List Selected}
    (h : selectFrom f root c ns = .ok rs) :
    Site.existing? ⟨root, ns, .reuse⟩ f c = .ok rs.head? := by
  rw [Site.existing?]
  dsimp only
  rw [h]
  rfl

/-- Beginnings that select something are passed by; the last one of them counts. -/
theorem follow_found {f : Forest} (context : Selected) {found : List (String × Step)}
    (hfound : ∀ b ∈ found, ∃ r rs, selectFrom f root b.1 ns = .ok (r :: rs))
    (missing : List (String × Step)) :
    ∃ anchor, (found = [] → anchor = context) ∧
      (∀ b ∈ found.getLast?, ∃ rs, selectFrom f root b.1 ns = .ok (anchor :: rs)) ∧
      follow ⟨root, ns, .reuse⟩ f context none (found ++ missing) =
        follow ⟨root, ns, .reuse⟩ f anchor none missing := by
  induction found generalizing context with
  | nil => exact ⟨context, fun _ => rfl, fun b hb => absurd hb (by simp), rfl⟩
  | cons b found ih =>
    obtain ⟨r, rs, hr⟩ := hfound b List.mem_cons_self
    obtain ⟨anchor, hnil, hlast, hfollow⟩ := ih r fun b' hb' =>
      hfound b' (List.mem_cons_of_mem _ hb')
    refine ⟨anchor, fun h => absurd h (by simp), ?_, ?_⟩
    · intro b' hb'
      cases found with
      | nil =>
        rw [List.getLast?_singleton, Option.mem_some] at hb'
        rw [← hb', hnil rfl]
        exact ⟨rs, hr⟩
      | cons b'' found =>
        rw [List.getLast?_cons_cons] at hb'
        exact hlast b' hb'
    · rw [List.cons_append, ← hfollow]
      obtain ⟨c, s⟩ := b
      rw [follow, existing?_of_selectFrom hr]
      rfl

/-- An attribute that was made along with the element is found, and nothing is made for it. -/
theorem follow_demanded {pre : List Step} {s : ChildStep} {f : Forest} {n m : Node}
    (h : Stuck root ns pre (some (.element s)) f n m) (hs : Consistent s.comparisons) {d a : String}
    (hselect : Selecting root ns (pre ++ [.element s]) [(d, .attribute a)])
    (ha : (s.newElement ns f.next).hasAttribute a = true) :
    follow ⟨root, ns, .reuse⟩ (f.extend ns m.id [.element s]) (.node f.next) none
      [(d, .attribute a)] =
        .done (f.extend ns m.id [.element s, .attribute a]) (.attribute ⟨f.next, a⟩) := by
  have hmade := h.made hs fun t (ht : t ∈ none) => absurd ht (by simp)
  have hnext : Site.existing? ⟨root, ns, .reuse⟩ (f.extend ns m.id [.element s]) d =
      .ok (some (.attribute ⟨f.next, a⟩)) := by
    rw [existing?_of_selectFrom (hselect.head hmade.sound hmade.node), h.walk_made hs, walk,
      if_pos ha]
    rfl
  have hsame : (f.extend ns m.id [.element s]).extend ns f.next [.attribute a] =
      f.extend ns m.id [.element s] :=
    Forest.extend_of_hasAttribute hmade.sound ns hmade.node?_reached ha
  rw [follow, hnext, ← f.extend_extend h.sound ns m.id s [.attribute a], hsame]
  rfl

/-- **What is made for beginnings that select nothing**: the element that was reached with the steps
before is extended. -/
theorem follow_missing {bs : List (String × Step)} {pre : List Step}
    (hlast : XPath.AttributeLast (bs.map Prod.snd))
    (hsteps : ∀ s ∈ bs.map Prod.snd, s.Feasible ns) (hselect : Selecting root ns pre bs)
    {f : Forest} {n m : Node} (h : Stuck root ns pre (bs.head?.map Prod.snd) f n m) :
    follow ⟨root, ns, .reuse⟩ f (.node m.id) none bs =
      .done (f.extend ns m.id (bs.map Prod.snd)) (lastMade f.next m.id (bs.map Prod.snd)) := by
  induction bs generalizing pre f n m with
  | nil =>
    rw [List.map_nil, f.extend_nil h.sound ns h.node?_reached]
    rfl
  | cons b bs ih =>
    obtain ⟨c, s⟩ := b
    have hx := h.node?_reached
    have hs := hsteps s List.mem_cons_self
    have hexisting : Site.existing? ⟨root, ns, .reuse⟩ f c = .ok none := by
      rw [existing?_of_selectFrom (hselect.head h.sound h.node), h.missing s rfl]
      rfl
    rw [List.map_cons] at hlast hsteps ⊢
    cases s with
    | «attribute» a =>
      have hbs : bs = [] := List.map_eq_nil_iff.1 hlast
      rw [hbs, follow_attribute h.sound hx h.isElement hexisting [] hs
        (h.hasAttribute_eq_false rfl)]
      rfl
    | element s =>
      rw [follow_element h.sound hx h.isElement hexisting bs hs]
      by_cases hfound : ∃ d a, bs = [(d, .attribute a)] ∧
          (s.newElement ns f.next).hasAttribute a = true
      · obtain ⟨d, a, rfl, ha⟩ := hfound
        exact follow_demanded h hs.consistent hselect.tail ha
      · have hnext : ∀ t ∈ bs.head?.map Prod.snd, (s.newElement ns f.next).walk ns [t] = [] := by
          intro t ht
          rcases walk_newElement ns s f.next t with hnone | ⟨a, rfl, ha⟩
          · exact hnone
          · obtain ⟨⟨d, t⟩, hb, rfl⟩ := Option.map_eq_some_iff.1 ht
            obtain ⟨bs', rfl⟩ := List.head?_eq_some_iff.1 hb
            have hbs' : bs' = [] := List.map_eq_nil_iff.1 hlast
            rw [hbs'] at hfound
            exact absurd ⟨d, a, rfl, ha⟩ hfound
        have hrest := ih hlast (fun t ht => hsteps t (List.mem_cons_of_mem _ ht)) hselect.tail
          (h.made hs.consistent hnext)
        rw [← f.extend_extend h.sound ns m.id s (bs.map Prod.snd)]
        exact hrest

end

/-! ## building -/

section
variable {e : String} (he : Plain e) {p : Path} (hp : Path.parse e = .ok p) {ns : Namespaces}
  (hns : ns.refusal? = none)
include he hp hns

theorem selecting_of_parse (root : NodeId) (hbind : ns.Bind p.steps) :
    Selecting root ns [] p.beginnings :=
  fun _ _ _ _ hb _ _ hf hn => selectFrom_beginning he hp hns hbind hb hf hn

variable {f : Forest} (hf : f.Sound) {root : NodeId} {n : Node} (hn : f.node? root = some n)
include hf hn

/-- Behind element steps, the first element that they lead to is gone on from. -/
theorem exists_mem_reach (hbind : ns.Bind p.steps) {found missing : List (String × Step)}
    (hb : p.beginnings = found ++ missing)
    (helements : ∀ s ∈ found.map Prod.snd, s.isAttribute = false) {anchor : Selected}
    (hnil : found = [] → anchor = .node root)
    (hlast : ∀ b ∈ found.getLast?, ∃ rs, selectFrom f root b.1 ns = .ok (anchor :: rs)) :
    ∃ m ∈ n.reach ns (found.map Prod.snd), anchor = .node m.id := by
  obtain ⟨-, hid⟩ := Forest.mem_of_node? hn
  rcases List.eq_nil_or_concat' found with rfl | ⟨init, ⟨c, s⟩, rfl⟩
  · refine ⟨n, List.mem_singleton_self n, ?_⟩
    rw [hnil rfl, hid]
  · obtain ⟨rs, hrs⟩ := hlast (c, s) (by rw [List.getLast?_concat]; rfl)
    have hb' : p.beginnings = init ++ (c, s) :: missing := by
      rw [hb, List.append_assoc]
      rfl
    have hselect := selectFrom_beginning he hp hns hbind hb' hf hn
    rw [List.map_append, List.map_singleton] at helements ⊢
    rw [hrs, walk_eq_reach ns helements, Except.ok.injEq] at hselect
    have hanchor : anchor ∈ (n.reach ns (init.map Prod.snd ++ [s])).map (.node ·.id) := by
      rw [← hselect]
      exact List.mem_cons_self
    obtain ⟨m, hm, hm'⟩ := List.mem_map.1 hanchor
    exact ⟨m, hm, hm'.symm⟩

/-- If all beginnings select something, so does the expression. -/
theorem selectFrom_of_found (hbind : ns.Bind p.steps) {anchor : Selected}
    (hlast : ∀ b ∈ p.beginnings.getLast?, ∃ rs, selectFrom f root b.1 ns = .ok (anchor :: rs)) :
    ∃ rs, selectFrom f root e ns = .ok (anchor :: rs) := by
  have hne : p.beginnings ≠ [] := by
    intro hnil
    apply steps_ne_nil_of_parse he hp
    rw [← p.map_snd_beginnings, hnil, List.map_nil]
  obtain ⟨init, ⟨c, s⟩, hb⟩ := (List.eq_nil_or_concat' p.beginnings).resolve_left hne
  have hc : (c, s) ∈ p.beginnings.getLast? := by
    rw [hb, List.getLast?_concat]
    rfl
  obtain ⟨rs, hrs⟩ := hlast (c, s) hc
  refine ⟨rs, ?_⟩
  rw [← hrs, selectFrom_beginning he hp hns hbind hb hf hn,
    selectFrom_of_parse hf hn he hp hns hbind, ← p.map_snd_beginnings, hb, List.map_append,
    List.map_singleton]

variable (hbind : ns.Bind p.steps)
include hbind

/-- The beginnings that select something come first.  Nothing is done for them, and where one that
selects nothing follows, the run stands at an element. -/
theorem exists_stuck (hel : n.isElement = true) :
    ∃ found missing anchor, p.beginnings = found ++ missing ∧
      (∀ b ∈ missing, selectFrom f root b.1 ns = .ok []) ∧
      (found = [] → anchor = .node root) ∧
      (∀ b ∈ found.getLast?, ∃ rs, selectFrom f root b.1 ns = .ok (anchor :: rs)) ∧
      follow ⟨root, ns, .reuse⟩ f (.node root) none p.beginnings =
        follow ⟨root, ns, .reuse⟩ f anchor none missing ∧
      ∀ c s rest, missing = (c, s) :: rest →
        ∃ m ∈ n.nodes, anchor = .node m.id ∧ Stuck root ns (found.map Prod.snd) (some s) f n m := by
  have hlast := attributeLast_of_parse he hp
  rw [← p.map_snd_beginnings] at hlast
  obtain ⟨found, missing, hb, hfound, hmissing⟩ :=
    (selecting_of_parse he hp hns root hbind).exists_split hlast hf hn
  obtain ⟨anchor, hnil, hanchor, hfollow⟩ := follow_found (.node root) hfound missing
  rw [← hb] at hfollow
  refine ⟨found, missing, anchor, hb, hmissing, hnil, hanchor, hfollow, ?_⟩
  rintro c s rest rfl
  rw [hb, List.map_append, List.map_cons] at hlast
  have helements := hlast.of_append.1
  obtain ⟨m, hm, hnode⟩ := exists_mem_reach he hp hns hf hn hbind hb helements hnil hanchor
  refine ⟨m, mem_nodes_of_mem_reach ns hm, hnode, hf, hn, helements, hm,
    isElement_of_mem_reach ns hel hm, fun t ht => ?_⟩
  have hselect := selectFrom_beginning he hp hns hbind hb hf hn
  rw [hmissing (c, s) List.mem_cons_self, Except.ok.injEq, Option.some.inj ht] at hselect
  exact hselect.symm

variable (hks : ∀ s ∈ p.steps, s.Consistent)
include hks

/-- What is made where a run stands is what the expression selects then, and nothing else. -/
theorem buildPath_of_stuck {found rest : List (String × Step)} {c : String} {s : Step}
    (hb : p.beginnings = found ++ (c, s) :: rest) (hcover : ns.Cover (s :: rest.map Prod.snd))
    {m : Node} (hfollow : follow ⟨root, ns, .reuse⟩ f (.node root) none p.beginnings =
      follow ⟨root, ns, .reuse⟩ f (.node m.id) none ((c, s) :: rest))
    (h : Stuck root ns (found.map Prod.snd) (some s) f n m) :
    buildPath ⟨root, ns, .reuse⟩ f p none = ⟨f.extend ns m.id (s :: rest.map Prod.snd), [],
      .ok (lastMade f.next m.id (s :: rest.map Prod.snd))⟩ ∧
    selectFrom (f.extend ns m.id (s :: rest.map Prod.snd)) root e ns =
      .ok [lastMade f.next m.id (s :: rest.map Prod.snd)] := by
  have hsteps : p.steps = found.map Prod.snd ++ s :: rest.map Prod.snd := by
    rw [← p.map_snd_beginnings, hb, List.map_append, List.map_cons]
  have hsub : s :: rest.map Prod.snd ⊆ p.steps := by
    rw [hsteps]
    exact List.subset_append_right _ _
  have hall := attributeLast_of_parse he hp
  have hselecting := selecting_of_parse he hp hns root hbind
  rw [hsteps] at hall
  rw [hb] at hselecting
  have hlast : XPath.AttributeLast (((c, s) :: rest).map Prod.snd) := hall.of_append.2
  have hfeasible : ∀ t ∈ ((c, s) :: rest).map Prod.snd, t.Feasible ns :=
    feasible_of_parse hns he hp hsub hcover hks
  have hrun := follow_missing hlast hfeasible hselecting.of_append h
  have hfound := f.node?_extend hf ns h.node?_reached h.isElement hn
    (List.mem_map_of_mem (mem_nodes_of_mem_reach ns h.reached)) (s :: rest.map Prod.snd)
  have hselect : selectFrom (f.extend ns m.id (s :: rest.map Prod.snd)) root e ns =
      .ok [lastMade f.next m.id (s :: rest.map Prod.snd)] := by
    have hks' : ∀ t, Step.element t ∈ s :: rest.map Prod.snd → Consistent t.comparisons :=
      fun t ht => hks (.element t) (hsub ht)
    rw [selectFrom_of_parse (hf.extend ns h.node?_reached h.isElement _) hfound he hp hns hbind,
      hsteps, h.walk_all hks' f.next]
  exact ⟨buildPath_of_follow hp (hfollow.trans hrun) hselect, hselect⟩

variable (hel : n.isElement = true)
include hel

/-- **Only what is missing is made.**  The expression is followed as far as something is found; the
first thing that the last found beginning selects, or the node that the path begins at if there is
none, gets what the further steps describe, and nothing else changes.  That is what is returned, and
all that the expression selects then.  The prefixes of these further steps have to be mapped to
references, for the others it's enough that they are bound. -/
theorem build_reuse_of_plain :
    ∃ found missing anchor, p.beginnings = found ++ missing ∧
      (∀ b ∈ missing, selectFrom f root b.1 ns = .ok []) ∧
      (found = [] → anchor = .node root) ∧
      (∀ b ∈ found.getLast?, ∃ rs, selectFrom f root b.1 ns = .ok (anchor :: rs)) ∧
      (missing = [] → build ⟨root, ns, .reuse⟩ f e = ⟨f, [], .ok anchor⟩) ∧
      (missing ≠ [] → ns.Cover (missing.map Prod.snd) →
        ∃ m made, anchor = .node m.id ∧ m ∈ n.nodes ∧ m.isElement = true ∧
          made = lastMade f.next m.id (missing.map Prod.snd) ∧
          build ⟨root, ns, .reuse⟩ f e =
            ⟨f.extend ns m.id (missing.map Prod.snd), [], .ok made⟩ ∧
          selectFrom (f.extend ns m.id (missing.map Prod.snd)) root e ns = .ok [made]) := by
  obtain ⟨found, missing, anchor, hb, hmissing, hnil, hanchor, hfollow, hstuck⟩ :=
    exists_stuck he hp hns hf hn hbind hel
  refine ⟨found, missing, anchor, hb, hmissing, hnil, hanchor, fun hnone => ?_,
    fun hne hcover => ?_⟩
  · rw [hnone, List.append_nil] at hb
    rw [← hb] at hanchor
    obtain ⟨rs, hselect⟩ := selectFrom_of_found he hp hns hf hn hbind hanchor
    rw [hnone] at hfollow
    rw [build_of_parse hp]
    exact buildPath_of_follow hp hfollow hselect
  · obtain ⟨⟨c, s⟩, rest, rfl⟩ := List.exists_cons_of_ne_nil hne
    obtain ⟨m, hm, rfl, h⟩ := hstuck c s rest rfl
    obtain ⟨hbuild, hselect⟩ := buildPath_of_stuck he hp hns hf hn hbind hks hb hcover hfollow h
    rw [build_of_parse hp]
    exact ⟨m, _, rfl, hm, h.isElement, rfl, hbuild, hselect⟩

end

/-- Two elements are found for the first step, and the first one of them gets a new child. -/
theorem build_reuse_of_plain_operatorNames :
    build ⟨0, [("p", "u")], .reuse⟩ operatorNames "p:and / p:c[@k]" =
      ⟨operatorNames.extend [("p", "u")] 2 [.element ⟨some "p", "c", [⟨"k", none⟩]⟩], [],
        .ok (.node 6)⟩ := by
  obtain ⟨p, hp, hbeginnings⟩ : ∃ p, Path.parse "p:and / p:c[@k]" = .ok p ∧
      p.beginnings = [("p:and", .element ⟨some "p", "and", []⟩),
        ("p:and / p:c[@k]", .element ⟨some "p", "c", [⟨"k", none⟩]⟩)] := by
    refine exists_ok_of_toOption_map ?_
    decide +kernel
  have hsteps : p.steps =
      [.element ⟨some "p", "and", []⟩, .element ⟨some "p", "c", [⟨"k", none⟩]⟩] := by
    rw [← p.map_snd_beginnings, hbeginnings]
    rfl
  have hplain : Plain "p:and / p:c[@k]" := plain_of_all (by decide) (by decide)
  have hcover : Namespaces.Cover [("p", "u")] p.steps := by
    rw [hsteps]
    unfold Namespaces.Cover
    decide
  have hbind := hcover.bind
  have hks : ∀ s ∈ p.steps, s.Consistent := by
    rw [hsteps]
    decide
  have hfirst : selectFrom operatorNames 0 "p:and" [("p", "u")] = .ok [.node 2, .node 4] := by
    have hb : p.beginnings = [] ++ ("p:and", .element ⟨some "p", "and", []⟩) ::
        [("p:and / p:c[@k]", .element ⟨some "p", "c", [⟨"k", none⟩]⟩)] := hbeginnings
    rw [selectFrom_beginning hplain hp rfl hbind hb sound_operatorNames rfl]
    rfl
  have hsecond : selectFrom operatorNames 0 "p:and / p:c[@k]" [("p", "u")] = .ok [] := by
    rw [selectFrom_of_parse sound_operatorNames rfl hplain hp rfl hbind, hsteps]
    rfl
  obtain ⟨n, hn, hel⟩ : ∃ n, operatorNames.node? 0 = some n ∧ n.isElement = true :=
    ⟨_, rfl, rfl⟩
  obtain ⟨found, missing, anchor, hb, hmissing, -, hlast, -, hmade⟩ :=
    build_reuse_of_plain hplain hp rfl sound_operatorNames hn hbind hks hel
  rw [hbeginnings] at hb
  rcases found with _ | ⟨b, _ | ⟨b', found⟩⟩
  · have hnone := hmissing _ (by rw [← List.nil_append missing, ← hb]; exact List.mem_cons_self)
    rw [hfirst] at hnone
    exact absurd hnone (by simp)
  · obtain ⟨rfl, rfl⟩ := List.cons.inj hb
    have hcover' : Namespaces.Cover [("p", "u")] [.element ⟨some "p", "c", [⟨"k", none⟩]⟩] :=
      hcover.of_mem (by simp [hsteps])
    obtain ⟨m, made, rfl, -, -, rfl, hbuild, -⟩ := hmade (by simp) hcover'
    obtain ⟨rs, hrs⟩ := hlast ("p:and", .element ⟨some "p", "and", []⟩) rfl
    rw [hfirst] at hrs
    have hid : 2 = m.id := by
      have hboth : 2 = m.id ∧ [Selected.node 4] = rs := by simpa using hrs
      exact hboth.1
    rw [hbuild, ← hid]
    rfl
  · obtain ⟨rfl, htail⟩ := List.cons.inj hb
    obtain ⟨rfl, hrest⟩ := List.cons.inj htail
    obtain ⟨rfl, rfl⟩ := List.append_eq_nil_iff.1 hrest.symm
    obtain ⟨rs, hrs⟩ :=
      hlast ("p:and / p:c[@k]", .element ⟨some "p", "c", [⟨"k", none⟩]⟩) rfl
    rw [hsecond] at hrs
    exact absurd hrs (by simp)

/-- It isn't enough that `xml` is always bound: nothing can be made for a prefix that isn't
mapped. -/
theorem not_build_reuse_unmapped :
    ¬ ∀ (f : Forest) (root : NodeId) (n : Node) (e : String) (p : Path) (ns : Namespaces),
      f.Sound → f.node? root = some n → n.isElement = true → Plain e → Path.parse e = .ok p →
      ns.refusal? = none → (∀ s ∈ p.steps, s.Consistent) →
      ns.Cover (p.steps.filter fun s => s.nsPrefix? != some "xml" && s.nsPrefix? != some "xmlns") →
      ∃ r, (build ⟨root, ns, .reuse⟩ f e).result = .ok r := by
  intro h
  obtain ⟨p, hp, -, hks, hcover⟩ := exists_parse_xml
  obtain ⟨r, hr⟩ := h operatorNames 0 _ _ p [] sound_operatorNames rfl rfl
    (plain_of_all (by decide) (by decide)) hp rfl hks hcover
  have hfails : (build ⟨0, [], .reuse⟩ operatorNames "xml:a").result =
      .error (.undefinedPrefix "xml" ⟨some "xml", "a", []⟩) := by
    decide +kernel
  exact absurd (hfails.symm.trans hr) (by simp)

end XmlPaths

import XmlPaths.Proofs.Build.Continuation

/-!
# Building once is enough

What is returned is what the expression selects first, and if something was made for it, it is all
that the expression selects.  The expression is then found in full, so that building it again
returns the same and changes nothing.

* `buildPath_of_walk`         an expression that selects something is built already;
* `walk_of_buildPath`         what was built is what the steps lead to;
* `build_reuse_idempotent`    the result is the first selected one, and building again gives it.
-/

namespace XmlPaths

open Node

/-! ## results of runs -/

theorem Outcome.exists_of_andThen {α β : Type} {o : Outcome α} {next : Forest → α → Outcome β}
    {b : β} (h : (o.andThen next).result = .ok b) :
    ∃ a, o.result = .ok a ∧ (next o.forest a).result = .ok b ∧
      (o.andThen next).forest = (next o.forest a).forest := by
  obtain ⟨f, conflicts, result⟩ := o
  cases result with
  | error e => exact absurd h (by simp [andThen])
  | ok a => exact ⟨a, rfl, h, rfl⟩

theorem Outcome.exists_eq_ok {α : Type} {o : Outcome α} {a : α} (h : o.result.toOption = some a) :
    ∃ f conflicts, o = ⟨f, conflicts, .ok a⟩ ∧ f = o.forest := by
  obtain ⟨f, conflicts, result⟩ := o
  cases result with
  | error e => exact absurd h (by simp [Except.toOption])
  | ok b => exact ⟨f, conflicts, congrArg _ (congrArg _ (Option.some.inj h)), rfl⟩

theorem exists_of_confirm {s : Site} {f : Forest} {e : String} {built r : Selected}
    (h : (confirm s f e built).result = .ok r) :
    r = built ∧ (confirm s f e built).forest = f ∧
      ∃ first more, selectFrom f s.root e s.namespaces = .ok (first :: more) := by
  rw [confirm] at h ⊢
  split at h
  · exact absurd h (by simp [Outcome.fail])
  · exact absurd h (by simp [Outcome.fail])
  · next first more hselect =>
    exact ⟨(Except.ok.inj h).symm, rfl, first, more, hselect⟩

section
variable {e : String} {p : Path} (hp : Path.parse e = .ok p) {ns : Namespaces}
include hp

theorem legible_of_selectFrom {f : Forest} (hf : f.Sound) {root : NodeId} {n : Node}
    (hn : f.node? root = some n) {rs : List Selected} (h : selectFrom f root e ns = .ok rs) :
    Legible ns e p.steps := by
  by_contra hlegible
  obtain ⟨failure, hfailure⟩ :=
    unreadable_of_not_legible (spells_of_parse_of_within common_known.toClear hp) hlegible
  rw [hfailure f root n hf hn] at h
  exact absurd h (by simp)

theorem Legible.readable_of_parse (h : Legible ns e p.steps) : Readable ns e p.steps :=
  h.readable (spells_of_parse_of_within common_known.toClear hp h.within)

theorem exists_beginnings_eq_concat : ∃ init c s, p.beginnings = init ++ [(c, s)] ∧
    init.map Prod.snd ++ [s] = p.steps := by
  have hne : p.beginnings ≠ [] := by
    intro hnil
    apply Path.steps_ne_nil hp
    rw [← p.map_snd_beginnings, hnil, List.map_nil]
  obtain ⟨init, ⟨c, s⟩, hb⟩ := (List.eq_nil_or_concat' p.beginnings).resolve_left hne
  refine ⟨init, c, s, hb, ?_⟩
  rw [← p.map_snd_beginnings, hb, List.map_append, List.map_singleton]

variable {f : Forest} (hf : f.Sound) {root : NodeId} {n : Node} (hn : f.node? root = some n)
include hf hn

/-- **What the steps lead to already is found**, and nothing is made. -/
theorem buildPath_of_walk (hlegible : Legible ns e p.steps) {r : Selected} {rs : List Selected}
    (hwalk : n.walk ns p.steps = r :: rs) (names : Option (List String)) :
    buildPath ⟨root, ns, .reuse⟩ f p names = .done f r := by
  have hlast := Path.attributeLast hp
  have hfound : ∀ b ∈ p.beginnings, ∃ r rs, selectFrom f root b.1 ns = .ok (r :: rs) := by
    intro b hb
    obtain ⟨before, after, hsplit⟩ := List.append_of_mem hb
    have hsteps : p.steps = before.map Prod.snd ++ b.2 :: after.map Prod.snd := by
      rw [← p.map_snd_beginnings, hsplit, List.map_append, List.map_cons]
    have hselect := hlegible.readable_beginning hp hsplit f root n hf hn
    cases hnone : n.walk ns (before.map Prod.snd ++ [b.2]) with
    | cons r' rs' => exact ⟨r', rs', hselect.trans (by rw [hnone])⟩
    | nil =>
      rw [hsteps] at hlast
      have hdead := walk_append_of_nil ns hlast.of_append.1 hnone (after.map Prod.snd)
      rw [← hsteps, hwalk] at hdead
      exact absurd hdead (by simp)
  obtain ⟨anchor, -, hanchor, hfollow⟩ := follow_found_names (.node root) names hfound []
  obtain ⟨init, c, s, hb, hsteps⟩ := exists_beginnings_eq_concat hp
  obtain ⟨rs', hselect⟩ := hanchor (c, s) (by rw [hb, List.getLast?_concat]; rfl)
  have hread := hlegible.readable_beginning hp hb f root n hf hn
  rw [hsteps, hselect, hwalk, Except.ok.injEq, List.cons.injEq] at hread
  rw [List.append_nil] at hfollow
  have hconfirm := hlegible.readable_of_parse hp f root n hf hn
  rw [hwalk] at hconfirm
  rw [buildPath, hfollow, follow, Outcome.andThen_done, confirm, expression_of_parse hp]
  dsimp only
  rw [hconfirm, hread.1]

/-- **What was built is what the steps lead to first**; if anything changed, it is all that they
lead to. -/
theorem walk_of_buildPath {names : Option (List String)} {r : Selected}
    (h : (buildPath ⟨root, ns, .reuse⟩ f p names).result = .ok r) :
    (buildPath ⟨root, ns, .reuse⟩ f p names).forest.Sound ∧ Legible ns e p.steps ∧
      ∃ m rs, (buildPath ⟨root, ns, .reuse⟩ f p names).forest.node? root = some m ∧
        m.walk ns p.steps = r :: rs ∧
        ((buildPath ⟨root, ns, .reuse⟩ f p names).forest ≠ f → rs = []) := by
  have hread := readAs_beginnings hp ns
  have hlast : XPath.AttributeLast (p.beginnings.map Prod.snd) := by
    rw [p.map_snd_beginnings]
    exact Path.attributeLast hp
  obtain ⟨built, hbuilt, hresult, hforest⟩ := Outcome.exists_of_andThen h
  obtain ⟨rfl, hsame, first, more, hselect⟩ := exists_of_confirm hresult
  rw [expression_of_parse hp] at hselect
  rw [buildPath, hforest, hsame]
  rcases follow_reuse hread hlast hf hn names with ⟨anchor, -, hanchor, hrun⟩ |
    ⟨-, -, failure, -, hrun⟩ | ⟨-, -, -, -, -, -, -, -, hleading⟩
  · rw [hrun] at hbuilt hselect ⊢
    obtain rfl := Except.ok.inj hbuilt
    obtain ⟨init, c, s, hb, hsteps⟩ := exists_beginnings_eq_concat hp
    obtain ⟨rs, hrs⟩ := hanchor (c, s) (by rw [hb, List.getLast?_concat]; rfl)
    have hwalk := walk_of_selectFrom (hread init c s [] hb) hf hn hrs
    rw [List.nil_append, hsteps] at hwalk
    exact ⟨hf, legible_of_selectFrom hp hf hn hselect, n, rs, hn, hwalk, fun h => absurd rfl h⟩
  · rw [hrun] at hbuilt
    exact absurd hbuilt (by simp [Outcome.fail])
  · obtain ⟨hsound, m', hm', hwalk⟩ := hleading r hbuilt
    rw [p.map_snd_beginnings] at hwalk
    have hselected := walk_of_selectFrom (readable_or_unreadable hp ns) hsound hm' hselect
    rcases hwalk with hnil | hone
    · rw [hnil] at hselected
      exact absurd hselected (by simp)
    · exact ⟨hsound, legible_of_selectFrom hp hsound hm' hselect, m', [], hm', hone, fun _ => rfl⟩

/-- Building a path once settles what it selects, and building it again changes nothing. -/
theorem buildPath_reuse_again {names : Option (List String)} {r : Selected} {f' : Forest}
    (hresult : (buildPath ⟨root, ns, .reuse⟩ f p names).result = .ok r)
    (hforest : (buildPath ⟨root, ns, .reuse⟩ f p names).forest = f') :
    (∃ rs, selectFrom f' root e ns = .ok (r :: rs) ∧ (f' ≠ f → rs = [])) ∧
      ∀ names', buildPath ⟨root, ns, .reuse⟩ f' p names' = .done f' r := by
  obtain ⟨hsound, hlegible, m, rs, hm, hwalk, honly⟩ := walk_of_buildPath hp hf hn hresult
  rw [hforest] at hsound hm honly
  refine ⟨⟨rs, ?_, honly⟩, buildPath_of_walk hp hsound hm hlegible hwalk⟩
  rw [hlegible.readable_of_parse hp f' root m hsound hm, hwalk]

end

/-- What builds an element builds the path to it. -/
theorem buildPath_of_buildElement {s : Site} {f : Forest} {e : String} {p : Path}
    (hp : Path.parse e = .ok p) {names : Option (List String)} {x : NodeId}
    (h : (buildElement s f e names).result = .ok x) :
    p.endsInAttribute = false ∧ (buildPath s f p names).result = .ok (.node x) ∧
      (buildPath s f p names).forest = (buildElement s f e names).forest := by
  rw [buildElement, hp] at h ⊢
  dsimp only at h ⊢
  split at h
  · exact absurd h (by simp [Outcome.fail])
  next hends =>
  rw [if_neg hends]
  obtain ⟨built, hbuilt, hnode, hforest⟩ := Outcome.exists_of_andThen h
  cases built with
  | node y => exact ⟨Bool.eq_false_iff.2 hends, Except.ok.inj hnode ▸ hbuilt, hforest.symm⟩
  | «attribute» a => exact absurd hnode (by simp [Outcome.fail])
  | text t => exact absurd hnode (by simp [Outcome.fail])

/-- **What is returned is found first, and building again finds it.**  If anything was made, it is
all that the expression selects.  This holds for every expression, whatever it is evaluated to, and
for all namespaces and names. -/
theorem build_reuse_idempotent {f : Forest} (hf : f.Sound) {root : NodeId} {n : Node}
    (hn : f.node? root = some n) (ns : Namespaces) (e : String) :
    (∀ {f' conflicts r}, build ⟨root, ns, .reuse⟩ f e = ⟨f', conflicts, .ok r⟩ →
      (∃ rs, selectFrom f' root e ns = .ok (r :: rs) ∧ (f' ≠ f → rs = [])) ∧
      build ⟨root, ns, .reuse⟩ f' e = .done f' r) ∧
    ∀ {names f' conflicts x}, buildElement ⟨root, ns, .reuse⟩ f e names = ⟨f', conflicts, .ok x⟩ →
      (∃ rs, selectFrom f' root e ns = .ok (.node x :: rs) ∧ (f' ≠ f → rs = [])) ∧
      buildElement ⟨root, ns, .reuse⟩ f' e names = .done f' x := by
  cases hp : Path.parse e with
  | error failure =>
    constructor
    · intro f' conflicts r h
      rw [build, hp] at h
      exact absurd (congrArg Outcome.result h) (by simp [Outcome.fail])
    · intro names f' conflicts x h
      rw [buildElement, hp] at h
      exact absurd (congrArg Outcome.result h) (by simp [Outcome.fail])
  | ok p =>
    constructor
    · intro f' conflicts r h
      rw [build_of_parse hp] at h ⊢
      obtain ⟨hselect, hagain⟩ := buildPath_reuse_again hp hf hn (congrArg Outcome.result h)
        (congrArg Outcome.forest h)
      exact ⟨hselect, hagain none⟩
    · intro names f' conflicts x h
      obtain ⟨hends, hresult, hforest⟩ := buildPath_of_buildElement hp (congrArg Outcome.result h)
      obtain ⟨hselect, hagain⟩ := buildPath_reuse_again hp hf hn hresult
        (hforest.trans (congrArg Outcome.forest h))
      refine ⟨hselect, ?_⟩
      rw [buildElement, hp]
      dsimp only
      rw [hends, if_neg (by simp), hagain names]
      rfl

/-- An element is made at the end of its parent, and one in front of all children. -/
theorem build_reuse_idempotent_operatorNames :
    (∃ f' conflicts, build ⟨0, [("p", "u")], .reuse⟩ operatorNames "p:and / p:c[@k]" =
        ⟨f', conflicts, .ok (.node 6)⟩ ∧
      selectFrom f' 0 "p:and / p:c[@k]" [("p", "u")] = .ok [.node 6] ∧
      build ⟨0, [("p", "u")], .reuse⟩ f' "p:and / p:c[@k]" = .done f' (.node 6)) ∧
    ∃ f' conflicts, buildElement ⟨0, [("p", "u")], .reuse⟩ operatorNames "div/p:or" (some ["a"]) =
        ⟨f', conflicts, .ok 7⟩ ∧
      selectFrom f' 0 "div/p:or" [("p", "u")] = .ok [.node 7] ∧
      buildElement ⟨0, [("p", "u")], .reuse⟩ f' "div/p:or" (some ["a"]) = .done f' 7 := by
  have hroot : operatorNames.node? 0 = some _ := rfl
  constructor
  · obtain ⟨f', conflicts, hbuild, hf'⟩ := Outcome.exists_eq_ok
      (show (build ⟨0, [("p", "u")], .reuse⟩ operatorNames "p:and / p:c[@k]").result.toOption =
        some (.node 6) by decide +kernel)
    obtain ⟨⟨rs, hselect, honly⟩, hagain⟩ :=
      (build_reuse_idempotent sound_operatorNames hroot _ _).1 hbuild
    have hmore : f' ≠ operatorNames := fun h => absurd (congrArg Forest.next h)
      (by rw [hf']; decide +kernel)
    exact ⟨f', conflicts, hbuild, honly hmore ▸ hselect, hagain⟩
  · obtain ⟨f', conflicts, hbuild, hf'⟩ := Outcome.exists_eq_ok
      (show (buildElement ⟨0, [("p", "u")], .reuse⟩ operatorNames "div/p:or"
        (some ["a"])).result.toOption = some 7 by decide +kernel)
    obtain ⟨⟨rs, hselect, honly⟩, hagain⟩ :=
      (build_reuse_idempotent sound_operatorNames hroot _ _).2 hbuild
    have hmore : f' ≠ operatorNames := fun h => absurd (congrArg Forest.next h)
      (by rw [hf']; decide +kernel)
    exact ⟨f', conflicts, hbuild, honly hmore ▸ hselect, hagain⟩

end XmlPaths

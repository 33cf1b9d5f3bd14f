import XmlPaths.Proofs.Build.Ensuring
import XmlPaths.Proofs.Build.Runs
import XmlPaths.Proofs.Path.Rendering

/-!
# Spellings of one path

Plain expressions for equal paths may differ in blanks and quotes.  All that is looked up on the way
is looked up with parts of the expression itself; yet nothing but the steps counts, and what is done
is the same.

* `Failure.quoting`         the same failure, told with another expression;
* `Outcome.Alike`           outcomes that differ at most in the expression that a failure quotes;
* `SelectAlike`             expressions that select the same in all documents, or fail alike;
* `follow_alike`            runs along two spellings of one path;
* `sameAs_acts_alike`       expressions for equal paths do the same.
-/

namespace XmlPaths

/-! ## failures that quote different expressions -/

/-- the failure with another expression quoted in it -/
def Failure.quoting (e : String) : Failure → Failure
  | .endsInAttribute _ => .endsInAttribute e
  | .notLocated _ => .notLocated e
  | .notEvaluated _ => .notEvaluated e
  | .noNodeSet _ => .noNodeSet e
  | failure => failure

/-- The values are the same, or both are failures for the same reason, of which each may quote an
expression of its own. -/
def Except.Alike {α : Type} (x y : Except Failure α) : Prop :=
  x.mapError (Failure.quoting "") = y.mapError (Failure.quoting "")

/-- The outcomes leave the same documents, met the same conflicts, and have the same results or
failures for the same reason. -/
structure Outcome.Alike {α : Type} (o o' : Outcome α) : Prop where
  forest : o.forest = o'.forest
  conflicts : o.conflicts = o'.conflicts
  result : Except.Alike o.result o'.result

section
variable {α β : Type}

theorem Except.Alike.cases {x y : Except Failure α} (h : Except.Alike x y) :
    (∃ a, x = .ok a ∧ y = .ok a) ∨
      ∃ e e', x = .error e ∧ y = .error e' ∧ e.quoting "" = e'.quoting "" := by
  cases x with
  | error e =>
    cases y with
    | error e' => exact .inr ⟨e, e', rfl, rfl, Except.error.inj h⟩
    | ok b => exact absurd h (by simp [Except.Alike, Except.mapError])
  | ok a =>
    cases y with
    | error e' => exact absurd h (by simp [Except.Alike, Except.mapError])
    | ok b =>
      obtain rfl : a = b := Except.ok.inj h
      exact .inl ⟨a, rfl, rfl⟩

/-- What is computed from the values is alike again. -/
theorem Except.Alike.map {x y : Except Failure α} (h : Except.Alike x y) (g : α → β) :
    Except.Alike (x.map g) (y.map g) := by
  rcases h.cases with ⟨a, rfl, rfl⟩ | ⟨e, e', rfl, rfl, he⟩
  · exact rfl
  · exact congrArg Except.error he

namespace Outcome

theorem Alike.refl (o : Outcome α) : o.Alike o := ⟨rfl, rfl, rfl⟩

theorem alike_fail (f : Forest) {e e' : Failure} (h : e.quoting "" = e'.quoting "") :
    (fail f e : Outcome α).Alike (fail f e') :=
  ⟨rfl, rfl, congrArg Except.error h⟩

/-- What is done after outcomes that are alike has to be alike for results only. -/
theorem Alike.andThen {o o' : Outcome α} (h : o.Alike o') {next next' : Forest → α → Outcome β}
    (hnext : ∀ a, o.result = .ok a → (next o.forest a).Alike (next' o.forest a)) :
    (o.andThen next).Alike (o'.andThen next') := by
  obtain ⟨f, conflicts, x⟩ := o
  obtain ⟨f', conflicts', y⟩ := o'
  obtain ⟨hforest, hconflicts, hresult⟩ := h
  dsimp only at hforest hconflicts hresult hnext
  subst hforest hconflicts
  rcases hresult.cases with ⟨a, rfl, rfl⟩ | ⟨e, e', rfl, rfl, he⟩
  · obtain ⟨hforest, hconflicts, hresult⟩ := hnext a rfl
    rw [andThen_ok, andThen_ok]
    exact ⟨hforest, congrArg (conflicts ++ ·) hconflicts, hresult⟩
  · exact ⟨rfl, rfl, congrArg Except.error he⟩

end Outcome

end

/-! ## expressions that are evaluated alike -/

/-- In all documents the expressions select the same, or both fail for the same reason. -/
def SelectAlike (ns : Namespaces) (c c' : String) : Prop :=
  ∀ f root n, Forest.Sound f → f.node? root = some n →
    Except.Alike (selectFrom f root c ns) (selectFrom f root c' ns)

/-- A plain expression with a prefix that isn't bound can't be evaluated. -/
theorem selectFrom_of_not_bind {f : Forest} (hf : f.Sound) {root : NodeId} {n : Node}
    (hn : f.node? root = some n) {e : String} (he : Plain e) {p : Path}
    (hp : Path.parse e = .ok p) {ns : Namespaces} (hns : ns.refusal? = none)
    (hbind : ¬ ns.Bind p.steps) : selectFrom f root e ns = .error (.notEvaluated e) := by
  obtain ⟨hmem, rfl⟩ := Forest.mem_of_node? hn
  have hmarkup : isMarkupText e = true := List.all_eq_true.2 he.everywhere
  have hcontext : XPath.eval ⟨f, ns⟩ ⟨.node n.id, 1, 1⟩ .context =
      .ok (.nodes ([n].map (.node ·.id))) := XPath.eval.eq_1 _ _
  obtain ⟨failure, hfailure⟩ := XPath.exists_error_of_not_bind hf (attributeLast_of_parse he hp)
    hbind (Forest.Row.of_mem hmem) hcontext
  rw [selectFrom, evaluateNodes, hns]
  dsimp only
  rw [hmarkup, parse?_of_parse he hp, if_neg (by simp)]
  dsimp only
  rw [hfailure]
  rfl

/-- **Plain expressions with the same steps are evaluated alike.** -/
theorem selectAlike_of_steps (ns : Namespaces) {e e' : String} (he : Plain e) (he' : Plain e')
    {p p' : Path} (hp : Path.parse e = .ok p) (hp' : Path.parse e' = .ok p')
    (hsteps : p.steps = p'.steps) : SelectAlike ns e e' := by
  intro f root n hf hn
  cases hns : ns.refusal? with
  | some r =>
    rw [selectFrom_of_refusal hns, selectFrom_of_refusal hns]
    exact rfl
  | none =>
    by_cases hbind : ns.Bind p.steps
    · rw [selectFrom_of_parse hf hn he hp hns hbind,
        selectFrom_of_parse hf hn he' hp' hns (hsteps ▸ hbind), hsteps]
      exact rfl
    · rw [selectFrom_of_not_bind hf hn he hp hns hbind,
        selectFrom_of_not_bind hf hn he' hp' hns (hsteps ▸ hbind)]
      exact rfl

/-- two lists of beginnings of which those at the same place are alike -/
def BeginAlike (ns : Namespaces) (bs bs' : List (String × Step)) : Prop :=
  List.Forall₂ (fun b b' => b.2 = b'.2 ∧ SelectAlike ns b.1 b'.1) bs bs'

theorem beginAlike_of_splits {ns : Namespaces} {bs bs' : List (String × Step)}
    (hsnd : bs.map Prod.snd = bs'.map Prod.snd)
    (h : ∀ found c s missing found' c' missing', bs = found ++ (c, s) :: missing →
      bs' = found' ++ (c', s) :: missing' → found.map Prod.snd = found'.map Prod.snd →
      SelectAlike ns c c') : BeginAlike ns bs bs' := by
  induction bs generalizing bs' with
  | nil =>
    rw [List.map_nil, eq_comm, List.map_eq_nil_iff] at hsnd
    rw [hsnd]
    exact .nil
  | cons b bs ih =>
    cases bs' with
    | nil => exact absurd hsnd (by simp)
    | cons b' bs' =>
      obtain ⟨c, s⟩ := b
      obtain ⟨c', s'⟩ := b'
      rw [List.map_cons, List.map_cons, List.cons.injEq] at hsnd
      obtain ⟨hs, hrest⟩ := hsnd
      obtain rfl : s = s' := hs
      refine .cons ⟨rfl, h [] c s bs [] c' bs' rfl rfl rfl⟩ (ih hrest ?_)
      intro found d t missing found' d' missing' hb hb' hfound
      refine h ((c, s) :: found) d t missing ((c', s) :: found') d' missing' ?_ ?_ ?_
      · rw [hb, List.cons_append]
      · rw [hb', List.cons_append]
      · rw [List.map_cons, List.map_cons, hfound]

/-- The beginnings of plain expressions with the same steps are evaluated alike. -/
theorem beginAlike_of_steps (ns : Namespaces) {e e' : String} (he : Plain e) (he' : Plain e')
    {p p' : Path} (hp : Path.parse e = .ok p) (hp' : Path.parse e' = .ok p')
    (hsteps : p.steps = p'.steps) : BeginAlike ns p.beginnings p'.beginnings := by
  refine beginAlike_of_splits ?_ ?_
  · rw [p.map_snd_beginnings, p'.map_snd_beginnings, hsteps]
  · intro found c s missing found' c' missing' hb hb' hfound
    obtain ⟨hc, q, hq, hqs⟩ := plain_beginning he hp hb
    obtain ⟨hc', q', hq', hqs'⟩ := plain_beginning he' hp' hb'
    exact selectAlike_of_steps ns hc hc' hq hq' (by rw [hqs, hqs', hfound])

/-! ## runs that are alike -/

section
variable {f : Forest} (hf : f.Sound)
include hf

/-- **Runs along two spellings of the same steps are alike.**  What one turn leaves holds the root
as well, so that the lookups of the next turn are alike again. -/
theorem follow_alike {s : Site} {bs bs' : List (String × Step)}
    (h : BeginAlike s.namespaces bs bs') {n : Node} (hn : f.node? s.root = some n)
    (context : Selected) (names : Option (List String)) :
    (follow s f context names bs).Alike (follow s f context names bs') := by
  induction h generalizing f n context names with
  | nil => exact Outcome.Alike.refl _
  | @cons b b' bs bs' hb _ ih =>
    obtain ⟨c, step⟩ := b
    obtain ⟨c', step'⟩ := b'
    obtain ⟨rfl, hselect⟩ : step = step' ∧ SelectAlike s.namespaces c c' := hb
    have hexisting : Except.Alike (s.existing? f c) (s.existing? f c') := by
      rw [Site.existing?, Site.existing?]
      cases s.mode with
      | anew => exact rfl
      | reuse => exact (hselect f s.root n hf hn).map List.head?
    rw [follow, follow]
    rcases hexisting.cases with ⟨existing, hc, hc'⟩ | ⟨e, e', hc, hc', he⟩
    · rw [hc, hc']
      cases existing with
      | some found => exact ih hf hn found none
      | none =>
        refine (Outcome.Alike.refl _).andThen fun made _ => ?_
        obtain ⟨hsound, hkeeps⟩ := addStep_keeps hf context step s.namespaces names
        obtain ⟨n', hn', -⟩ := hkeeps s.root n hn
        exact ih hsound hn' made none
    · rw [hc, hc']
      exact Outcome.alike_fail f he

variable {ns : Namespaces} {e e' : String} (he : Plain e) (he' : Plain e') {p p' : Path}
  (hp : Path.parse e = .ok p) (hp' : Path.parse e' = .ok p') (hsteps : p.steps = p'.steps)
include he he' hp hp' hsteps

theorem buildPath_alike {root : NodeId} {n : Node} (hn : f.node? root = some n) (mode : Mode)
    (names : Option (List String)) :
    (buildPath ⟨root, ns, mode⟩ f p names).Alike (buildPath ⟨root, ns, mode⟩ f p' names) := by
  have hrun := follow_alike hf (s := ⟨root, ns, mode⟩)
    (beginAlike_of_steps ns he he' hp hp' hsteps) hn (.node root) names
  refine hrun.andThen fun built _ => ?_
  obtain ⟨hsound, hkeeps⟩ := follow_keeps hf ⟨root, ns, mode⟩ p.beginnings (.node root) names
  obtain ⟨n', hn', -⟩ := hkeeps root n hn
  rw [expression_of_parse hp, expression_of_parse hp', confirm, confirm]
  dsimp only
  rcases (selectAlike_of_steps ns he he' hp hp' hsteps _ root n' hsound hn').cases with
    ⟨selected, hc, hc'⟩ | ⟨failure, failure', hc, hc', hfailure⟩
  · rw [hc, hc']
    cases selected with
    | nil => exact Outcome.alike_fail _ rfl
    | cons r rs => exact Outcome.Alike.refl _
  · rw [hc, hc']
    exact Outcome.alike_fail _ hfailure

theorem buildElement_alike {root : NodeId} {n : Node} (hn : f.node? root = some n) (mode : Mode)
    (names : Option (List String)) :
    (buildElement ⟨root, ns, mode⟩ f e names).Alike
      (buildElement ⟨root, ns, mode⟩ f e' names) := by
  have hends : p'.endsInAttribute = p.endsInAttribute := by
    rw [Path.endsInAttribute, Path.endsInAttribute, hsteps]
  rw [buildElement, buildElement, hp, hp']
  dsimp only
  rw [hends]
  split
  · exact Outcome.alike_fail f rfl
  · refine (buildPath_alike hf he he' hp hp' hsteps hn mode names).andThen fun built _ => ?_
    exact Outcome.Alike.refl _

theorem ensure_alike {root : NodeId} {n : Node} (hn : f.node? root = some n) :
    (ensure f root ns e).Alike (ensure f root ns e') := by
  rcases (selectAlike_of_steps ns he he' hp hp' hsteps f root n hf hn).cases with
    ⟨selected, hc, hc'⟩ | ⟨failure, failure', hc, hc', hfailure⟩
  · cases selected with
    | cons r rs =>
      rw [ensure_of_found hp hc, ensure_of_found hp' hc']
      exact Outcome.Alike.refl _
    | nil =>
      -- the copies are the same, and what is built on them is alike
      obtain ⟨φ, -, -, hsound, hnode⟩ := hf.plant hn
      rw [ensure_of_missing hn hp hc, ensure_of_missing hn hp' hc']
      have hbuilt : (buildPath ⟨f.next, ns, .reuse⟩ _ p none).Alike
          (buildPath ⟨f.next, ns, .reuse⟩ _ p' none) :=
        buildPath_alike hsound he he' hp hp' hsteps hnode .reuse none
      exact hbuilt.andThen fun _ _ => Outcome.Alike.refl _
  · rw [ensure, ensure, hp, hp']
    dsimp only
    rw [hc, hc']
    exact Outcome.alike_fail f hfailure

end

/-- **Expressions for equal paths do the same.**  Whether all is made anew or not, whether an
attribute may be asked for or not, wherever the first element goes, and also on a copy: both
expressions leave the same documents, and either have the same result or fail for the same
reason. -/
theorem sameAs_acts_alike {f : Forest} (hf : f.Sound) {root : NodeId} {n : Node}
    (hn : f.node? root = some n) (ns : Namespaces) {e e' : String} (he : Plain e) (he' : Plain e')
    {p p' : Path} (hp : Path.parse e = .ok p) (hp' : Path.parse e' = .ok p')
    (hsame : p.sameAs p' = true) :
    (∀ mode, (build ⟨root, ns, mode⟩ f e).Alike (build ⟨root, ns, mode⟩ f e')) ∧
    (∀ mode names, (buildElement ⟨root, ns, mode⟩ f e names).Alike
      (buildElement ⟨root, ns, mode⟩ f e' names)) ∧
    (ensure f root ns e).Alike (ensure f root ns e') := by
  have hsteps := steps_eq_of_sameAs hp hp' hsame
  refine ⟨fun mode => ?_, fun mode names => ?_, ?_⟩
  · rw [build_of_parse hp, build_of_parse hp']
    exact buildPath_alike hf he he' hp hp' hsteps hn mode none
  · exact buildElement_alike hf he he' hp hp' hsteps hn mode names
  · exact ensure_alike hf he he' hp hp' hsteps hn

/-- Another kind of quotes, and blanks wherever they may stand. -/
theorem sameAs_acts_alike_operatorNames :
    (∀ mode, (build ⟨0, [("p", "u")], mode⟩ operatorNames "p:and[@x='a]b' and @y]/div/@z").Alike
      (build ⟨0, [("p", "u")], mode⟩ operatorNames " p:and [ @x\t= \"a]b\" and @y ] /div/@z ")) ∧
    (∀ mode names, (buildElement ⟨0, [("p", "u")], mode⟩ operatorNames
      "p:and[@x='a]b' and @y]/div/@z" names).Alike (buildElement ⟨0, [("p", "u")], mode⟩
      operatorNames " p:and [ @x\t= \"a]b\" and @y ] /div/@z " names)) ∧
    (ensure operatorNames 0 [("p", "u")] "p:and[@x='a]b' and @y]/div/@z").Alike
      (ensure operatorNames 0 [("p", "u")] " p:and [ @x\t= \"a]b\" and @y ] /div/@z ") := by
  obtain ⟨p, hp, hrender⟩ : ∃ p, Path.parse "p:and[@x='a]b' and @y]/div/@z" = .ok p ∧
      p.render = "p:and[@x='a]b' and @y]/div/@z" := by
    refine exists_ok_of_toOption_map ?_
    decide +kernel
  obtain ⟨p', hp', hrender'⟩ : ∃ p, Path.parse " p:and [ @x\t= \"a]b\" and @y ] /div/@z " = .ok p ∧
      p.render = "p:and[@x='a]b' and @y]/div/@z" := by
    refine exists_ok_of_toOption_map ?_
    decide +kernel
  have hsame : p.sameAs p' = true := by rw [Path.sameAs, hrender, hrender', beq_self_eq_true]
  have hroot : operatorNames.node? 0 = some _ := rfl
  exact sameAs_acts_alike sound_operatorNames hroot [("p", "u")]
    (plain_of_all (by decide) (by decide)) (plain_of_all (by decide) (by decide)) hp hp' hsame

end XmlPaths

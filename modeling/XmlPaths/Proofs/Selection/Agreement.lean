import XmlPaths.Proofs.Path.Acceptance
import XmlPaths.Proofs.Selection.Evaluation
import XmlPaths.Proofs.XPath.Reading

/-!
# Expressions are evaluated as they are parsed

A path expression is read twice: as a path, and as an expression of the full language when nodes
are selected with it.  Of plain expressions both readings agree.

* `Plain`                     ASCII names, the blanks of markup, characters of markup in literals;
* `selectFrom_eq_walk`        what an expression selects is what its steps lead to;
* `not_selectFrom_eq_walk_of_ne_empty`   namespaces that markup doesn't admit.
-/

namespace XmlPaths

open Alphabet

/-! ## plain expressions -/

/-- what plain expressions consist of outside of literals -/
def isPlain (c : Char) : Bool := decide (c.toNat < 128) && (!isBlank c || isMarkupBlank c)

/-- Outside of literals there are ASCII characters only, with no other blanks than those of
markup; in literals there may be all characters of markup. -/
def Plain (e : String) : Prop := Within isPlain isMarkupChar e.toList

theorem plain_of_all {e : String} (h : (unquoted none e.toList).all isPlain = true)
    (h' : isMarkupText e = true) : Plain e :=
  ⟨List.all_eq_true.1 h, List.all_eq_true.1 h'⟩

theorem isNcNameChar_of_isNameChar {c : Char} (h : isNameChar c = true) :
    isNcNameChar c = true := by
  simp only [isNameChar, Bool.or_eq_true] at h
  rw [isNcNameChar, Bool.or_eq_true]
  rcases h with h | h
  · exact .inl h
  · simp only [nameOnlyRanges, Ranges.covers, List.any_cons, List.any_nil, Bool.or_eq_true,
      Bool.and_eq_true, decide_eq_true_eq, Bool.or_false] at h
    simp only [ncNameOnlyRanges, Ranges.covers, List.any_cons, List.any_nil, Bool.or_eq_true,
      Bool.and_eq_true, decide_eq_true_eq, Bool.or_false]
    omega

theorem common_plain : (full.restrict isPlain isMarkupChar).Common where
  toClear := by
    refine clear_restrict ?_
    rintro c hc rfl
    exact absurd hc (by decide)
  isMarkupBlank := by
    intro c hc
    simp only [restrict, full, isPlain, Bool.and_eq_true, Bool.or_eq_true, Bool.not_eq_true'] at hc
    rcases hc.2.2 with h | h
    · rw [h] at hc
      exact absurd hc.1 (by simp)
    · exact h
  isXPathNameChar := by
    intro c hc
    simp only [restrict, full, isPlain, Bool.and_eq_true, decide_eq_true_eq] at hc
    obtain ⟨hname, hascii, -⟩ := hc
    have hne : c ≠ oghamSpace := by
      rintro rfl
      exact absurd hascii (by decide)
    rw [XPath.isNameChar, isNcNameChar_of_isNameChar hname, Bool.true_and]
    simpa using hne

theorem attributeLast_of_spellsPath {A : Alphabet} {steps : List Step} {t : List Char}
    (h : A.SpellsPath steps t) : XPath.AttributeLast steps := by
  induction h with
  | @last s t _ => cases s <;> trivial
  | more _ _ _ _ ih => exact ih

theorem spells_of_parse {e : String} (he : Plain e) {p : Path} (hp : Path.parse e = .ok p) :
    (full.restrict isPlain isMarkupChar).Spells p.steps e.toList := by
  obtain ⟨steps, hs⟩ := exists_spells_of_parse hp
  have hplain := hs.restrict he
  obtain ⟨-, -, -, segs, -, -, -, -, hsteps, hparse⟩ := parse_of_spells common_plain.toClear hplain
  obtain rfl : p = ⟨e, segs⟩ := by rwa [hp, Except.ok.injEq] at hparse
  rw [Path.steps, hsteps]
  exact hplain

theorem attributeLast_of_parse {e : String} (he : Plain e) {p : Path}
    (hp : Path.parse e = .ok p) : XPath.AttributeLast p.steps := by
  obtain ⟨u, t, w, -, ht, -, -⟩ := spells_of_parse he hp
  exact attributeLast_of_spellsPath ht

theorem steps_ne_nil_of_parse {e : String} (he : Plain e) {p : Path}
    (hp : Path.parse e = .ok p) : p.steps ≠ [] := by
  obtain ⟨u, t, w, -, ht, -, -⟩ := spells_of_parse he hp
  exact ht.steps_ne_nil

theorem parse?_of_parse {e : String} (he : Plain e) {p : Path} (hp : Path.parse e = .ok p) :
    XPath.parse? e = some (stepsExpr .context p.steps) :=
  XPath.parseChars?_of_spells common_plain.known (spells_of_parse he hp)

/-! ## accepted namespaces -/

theorem Namespaces.accepted_of_value? {ns : Namespaces} (hns : ns.refusal? = none) {q uri : String}
    (hq : ns.value? q = some uri) : uri ≠ "" ∧ isMarkupText uri = true := by
  induction ns with
  | nil => exact absurd hq (by simp [Entries.value?])
  | cons b ns ih =>
    obtain ⟨p, u⟩ := b
    rw [Namespaces.refusal?] at hns
    split at hns
    · exact absurd hns (by simp)
    · next hempty =>
      split at hns
      · exact absurd hns (by simp)
      · next htext =>
        rw [Entries.value?, List.lookup_cons] at hq
        by_cases hqp : q = p
        · have huri : u = uri := by simpa [hqp] using hq
          rw [← huri]
          refine ⟨fun h => hempty (by rw [h]; rfl), ?_⟩
          have hboth : isMarkupText p = true ∧ isMarkupText u = true := by simpa using htext
          exact hboth.2
        · have hbeq : (q == p) = false := by simpa using hqp
          rw [hbeq] at hq
          exact ih hns hq

/-! ## the agreement -/

/-- An expression that is read as steps selects what they lead to. -/
theorem selectFrom_of_steps {f : Forest} (hf : f.Sound) {root : NodeId} {n : Node}
    (hn : f.node? root = some n) {e : String} {steps : List Step}
    (hread : XPath.parse? e = some (stepsExpr .context steps)) (hlast : XPath.AttributeLast steps)
    (hmarkup : isMarkupText e = true) {ns : Namespaces} (hns : ns.refusal? = none)
    (hbind : ns.Bind steps) : selectFrom f root e ns = .ok (n.walk ns steps) := by
  obtain ⟨hmem, rfl⟩ := Forest.mem_of_node? hn
  have hcontext : XPath.eval ⟨f, ns⟩ ⟨.node n.id, 1, 1⟩ .context =
      .ok (.nodes ([n].map (.node ·.id))) := XPath.eval.eq_1 _ _
  obtain ⟨rs, hrs, hwalk⟩ :=
    XPath.eval_steps hf ns hlast hbind (Forest.Row.of_mem hmem) hcontext
  rw [List.flatMap_singleton] at hwalk
  rw [selectFrom, evaluateNodes, hns]
  dsimp only
  rw [hmarkup, hread]
  dsimp only
  rw [if_neg (by simp), hrs]
  dsimp only
  rw [← hwalk]
  rfl

section
variable {f : Forest} (hf : f.Sound) {root : NodeId} {n : Node} (hn : f.node? root = some n)
  {e : String} (he : Plain e) {p : Path} (hp : Path.parse e = .ok p) {ns : Namespaces}

theorem selectFrom_of_refusal {r : Refusal} (h : ns.refusal? = some r) :
    selectFrom f root e ns = .error (.refused r) := by
  rw [selectFrom, evaluateNodes, h]
  rfl

include hf hn he hp

theorem selectFrom_of_parse (hns : ns.refusal? = none) (hbind : ns.Bind p.steps) :
    selectFrom f root e ns = .ok (n.walk ns p.steps) :=
  selectFrom_of_steps hf hn (parse?_of_parse he hp) (attributeLast_of_parse he hp)
    (List.all_eq_true.2 he.everywhere) hns hbind

/-- **A plain expression selects what the steps of its path lead to.**  If markup doesn't admit the
namespaces, it is refused.  The nodes are met in document order, each once, and nothing counts but
the node that the path begins at: what is around it doesn't. -/
theorem selectFrom_eq_walk (hbind : ns.Bind p.steps) :
    (ns.refusal? = none → selectFrom f root e ns = .ok (n.walk ns p.steps)) ∧
    (∀ r, ns.refusal? = some r → selectFrom f root e ns = .error (.refused r)) ∧
    (n.walk ns p.steps).Nodup ∧ (n.walk ns p.steps).Sublist n.selectable ∧
    ∀ f' : Forest, f'.Sound → ∀ root' n', f'.node? root' = some n' →
      n'.withTail none = n.withTail none →
      selectFrom f' root' e ns = selectFrom f root e ns := by
  have hids := hf.nodup_ids hn
  refine ⟨fun hns => selectFrom_of_parse hf hn he hp hns hbind, fun r => selectFrom_of_refusal,
    Node.nodup_walk hids ns p.steps, Node.walk_sublist ns p.steps n, ?_⟩
  intro f' hf' root' n' hn' htail
  cases hns : ns.refusal? with
  | some r => rw [selectFrom_of_refusal hns, selectFrom_of_refusal hns]
  | none =>
    rw [selectFrom_of_parse hf hn he hp hns hbind, selectFrom_of_parse hf' hn' he hp hns hbind,
      ← Node.walk_withTail ns p.steps n' none, htail, Node.walk_withTail]

end

/-- a document with names that are operators in the full language -/
def operatorNames : Forest :=
  ⟨[⟨0, true, .element 0 ⟨⟨none, "div"⟩, [], some " "⟩
    [.leaf 1 (.comment "or") none,
      .element 2 ⟨⟨some "u", "and"⟩, [⟨⟨none, "x"⟩, "a]b"⟩, ⟨⟨none, "or"⟩, ""⟩], none⟩
        [.element 3 ⟨⟨none, "div"⟩, [], none⟩ [] none] (some " "),
      .element 4 ⟨⟨some "u", "and"⟩, [⟨⟨none, "x"⟩, "a]b"⟩], none⟩
        [.element 5 ⟨⟨none, "div"⟩, [], none⟩ [] none] none] none⟩], 6⟩

theorem sound_operatorNames : operatorNames.Sound where
  nodup := by decide
  lt_next := by decide
  attributes := by decide

/-- Names that are operators, and a bracket in a literal. -/
theorem selectFrom_eq_walk_operatorNames :
    selectFrom operatorNames 0 "p:and\t[ @x = 'a]b' and @or ]/div" [("p", "u")] =
      .ok [.node 3] := by
  obtain ⟨p, hp, hsteps⟩ : ∃ p, Path.parse "p:and\t[ @x = 'a]b' and @or ]/div" = .ok p ∧
      p.steps = [.element ⟨some "p", "and", [⟨"x", some "a]b"⟩, ⟨"or", none⟩]⟩,
        .element ⟨none, "div", []⟩] := by
    refine exists_ok_of_toOption_map ?_
    decide +kernel
  have hplain : Plain "p:and\t[ @x = 'a]b' and @or ]/div" := plain_of_all (by decide) (by decide)
  have hbind : Namespaces.Bind [("p", "u")] p.steps := by
    rw [hsteps]
    unfold Namespaces.Bind
    decide
  rw [(selectFrom_eq_walk sound_operatorNames rfl hplain hp hbind).1 rfl, hsteps]
  decide

/-- It is not enough that the namespaces are not empty: markup has to admit their characters. -/
theorem not_selectFrom_eq_walk_of_ne_empty :
    ¬ ∀ (f : Forest) (root : NodeId) (n : Node) (e : String) (p : Path) (ns : Namespaces),
      f.Sound → f.node? root = some n → n.isElement = true → Plain e → Path.parse e = .ok p →
      (∀ s ∈ p.steps, ∀ q ∈ s.nsPrefix?, q ≠ "xml" → q ≠ "xmlns" →
        ∃ uri, ns.value? q = some uri ∧ uri ≠ "") →
      selectFrom f root e ns = .ok (n.walk ns p.steps) := by
  intro h
  obtain ⟨p, hp, hsteps⟩ : ∃ p, Path.parse "p:a" = .ok p ∧
      p.steps = [.element ⟨some "p", "a", []⟩] := by
    refine exists_ok_of_toOption_map ?_
    decide +kernel
  have hplain : Plain "p:a" := plain_of_all (by decide) (by decide)
  have hmapped : ∀ s ∈ p.steps, ∀ q ∈ s.nsPrefix?, q ≠ "xml" → q ≠ "xmlns" →
      ∃ uri, Entries.value? [("p", "\x01")] q = some uri ∧ uri ≠ "" := by
    rw [hsteps]
    intro s hs q hq _ _
    rw [List.mem_singleton.1 hs] at hq
    obtain rfl : "p" = q := by simpa [Step.nsPrefix?] using hq
    exact ⟨"\x01", rfl, by decide⟩
  have hselect := h operatorNames 0 _ "p:a" p [("p", "\x01")] sound_operatorNames rfl rfl hplain
    hp hmapped
  rw [selectFrom_of_refusal (r := .illegalText) (by decide)] at hselect
  exact absurd hselect (by simp)

end XmlPaths

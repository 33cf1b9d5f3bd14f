import XmlPaths.Proofs.Path.Readings
import XmlPaths.Proofs.Selection.Agreement
import XmlPaths.Proofs.XPath.Foreign

/-!
# What can be evaluated at all

Of an accepted expression, whether it can be evaluated does not depend on the documents: either it
selects in all of them what its steps lead to, or its evaluation fails in all of them for one
reason.

* `Legible`                 the namespaces, characters and prefixes of an expression are in order;
* `Readable`, `Unreadable`  the expression selects what steps lead to, or can't be evaluated;
* `readable_or_unreadable`  every accepted expression is one or the other, by its legibility;
* `ReadAs`                  so is every beginning of it.
-/

namespace XmlPaths

open Alphabet

/-! ## characters that the full language knows -/

def isKnown (c : Char) : Bool := !XPath.isForeign c

theorem common_known : (full.restrict isKnown isMarkupChar).Common where
  toClear := by
    refine clear_restrict ?_
    rintro c hc rfl
    exact absurd hc (by decide)
  isMarkupBlank := by
    intro c hc
    simp only [restrict, full, isKnown, XPath.isForeign, Bool.and_eq_true, Bool.not_eq_true',
      Bool.and_eq_false_imp, Bool.not_eq_false'] at hc
    exact hc.2 hc.1
  isXPathNameChar := by
    intro c hc
    simp only [restrict, full, Bool.and_eq_true] at hc
    obtain ⟨hname, hknown⟩ := hc
    have hne : c ≠ oghamSpace := by
      rintro rfl
      exact absurd hknown (by decide)
    rw [XPath.isNameChar, isNcNameChar_of_isNameChar hname, Bool.true_and]
    simpa using hne

/-! ## both ways -/

/-- The bindings are accepted, the characters are known, and all prefixes are bound. -/
structure Legible (ns : Namespaces) (c : String) (steps : List Step) : Prop where
  refusal : ns.refusal? = none
  within : Within isKnown isMarkupChar c.toList
  bind : ns.Bind steps

/-- In all documents an expression selects what the steps lead to. -/
def Readable (ns : Namespaces) (c : String) (steps : List Step) : Prop :=
  ∀ f root n, Forest.Sound f → f.node? root = some n →
    selectFrom f root c ns = .ok (n.walk ns steps)

/-- In all documents the evaluation of an expression fails for one reason. -/
def Unreadable (ns : Namespaces) (c : String) : Prop :=
  ∃ failure, ∀ f root n, Forest.Sound f → f.node? root = some n →
    selectFrom f root c ns = .error failure

section
variable {ns : Namespaces} {c : String} {steps : List Step}

theorem Legible.readable (h : Legible ns c steps)
    (hspells : (full.restrict isKnown isMarkupChar).Spells steps c.toList) :
    Readable ns c steps := by
  intro f root n hf hn
  have hread : XPath.parse? c = some (stepsExpr .context steps) :=
    XPath.parseChars?_of_spells common_known.known hspells
  have hlast : XPath.AttributeLast steps := by
    obtain ⟨u, t, w, -, ht, -, -⟩ := hspells
    exact attributeLast_of_spellsPath ht
  exact selectFrom_of_steps hf hn hread hlast (List.all_eq_true.2 h.within.everywhere) h.refusal
    h.bind

/-! ## prefixes without a namespace -/

theorem XPath.eval_stepsExpr_of_error {f : Forest} {focus : XPath.Focus} {source : XPath.Expr}
    {failure : XPath.EvalError} (h : XPath.eval ⟨f, ns⟩ focus source = .error failure) :
    XPath.eval ⟨f, ns⟩ focus (stepsExpr source steps) = .error failure := by
  induction steps generalizing source with
  | nil => exact h
  | cons s rest ih =>
    refine ih ?_
    cases s with
    | element s => rw [Step.toExpr, XPath.eval, h]
    | «attribute» a => rw [Step.toExpr, XPath.eval, h]

/-- The step with the first prefix that isn't bound can't be evaluated. -/
theorem XPath.exists_error_of_not_bind {f : Forest} (hf : f.Sound) {focus : XPath.Focus}
    (hlast : XPath.AttributeLast steps) (hbind : ¬ ns.Bind steps) {source : XPath.Expr}
    {ms : List Node} (hms : f.Row ms)
    (hsource : XPath.eval ⟨f, ns⟩ focus source = .ok (.nodes (ms.map (.node ·.id)))) :
    ∃ failure, XPath.eval ⟨f, ns⟩ focus (stepsExpr source steps) = .error failure := by
  induction steps generalizing source ms with
  | nil => exact absurd (fun s hs => absurd hs (by simp)) hbind
  | cons s rest ih =>
    cases s with
    | «attribute» a =>
      obtain rfl : rest = [] := hlast
      refine absurd (fun s hs q hq => ?_) hbind
      rw [List.mem_singleton.1 hs] at hq
      exact absurd hq (by simp [Step.nsPrefix?])
    | element s =>
      by_cases hs : ∀ q ∈ s.nsPrefix, (ns.space? q).isSome = true
      · refine ih hlast (fun hrest => hbind fun t ht => ?_)
          (hms.children (Node.fits ns s)) (XPath.eval_elementStep hf ns hms hsource hs)
        rcases List.mem_cons.1 ht with rfl | ht
        · exact hs
        · exact hrest t ht
      · obtain ⟨q, hq⟩ := not_forall.1 hs
        obtain ⟨hsome, hnone⟩ := Classical.not_imp.1 hq
        have hspace : XPath.Scope.spaceOf ⟨f, ns⟩ s.nsPrefix = .error (.undefinedPrefix q) := by
          have hundefined : XPath.Scope.space? ⟨f, ns⟩ q = none := by
            rw [Bool.not_eq_true, Option.isSome_eq_false_iff, Option.isNone_iff_eq_none] at hnone
            exact hnone
          rw [hsome, XPath.Scope.spaceOf, hundefined]
        have hstep : XPath.eval ⟨f, ns⟩ focus ((Step.element s).toExpr source) =
            .error (.undefinedPrefix q) := by
          rw [Step.toExpr, XPath.eval, hsource]
          dsimp only
          rw [XPath.NodeTest.nsPrefix?, hspace]
        refine ⟨.undefinedPrefix q, ?_⟩
        show XPath.eval ⟨f, ns⟩ focus (stepsExpr ((Step.element s).toExpr source) rest) = _
        exact XPath.eval_stepsExpr_of_error hstep

/-! ## the alternative -/

variable (hspells : Within isKnown isMarkupChar c.toList →
  (full.restrict isKnown isMarkupChar).Spells steps c.toList)
include hspells

theorem unreadable_of_not_legible (h : ¬ Legible ns c steps) : Unreadable ns c := by
  cases hns : ns.refusal? with
  | some r => exact ⟨.refused r, fun f root n _ _ => selectFrom_of_refusal hns⟩
  | none =>
    by_cases hmarkup : isMarkupText c = true
    · refine ⟨.notEvaluated c, fun f root n hf hn => ?_⟩
      rw [selectFrom, evaluateNodes, hns]
      dsimp only
      rw [hmarkup, if_neg (by simp)]
      by_cases hknown : ∀ d ∈ unquoted none c.toList, isKnown d = true
      · have hwithin : Within isKnown isMarkupChar c.toList :=
          ⟨hknown, List.all_eq_true.1 hmarkup⟩
        have hread : XPath.parse? c = some (stepsExpr .context steps) :=
          XPath.parseChars?_of_spells common_known.known (hspells hwithin)
        have hlast : XPath.AttributeLast steps := by
          obtain ⟨u, t, w, -, ht, -, -⟩ := hspells hwithin
          exact attributeLast_of_spellsPath ht
        obtain ⟨hmem, rfl⟩ := Forest.mem_of_node? hn
        have hcontext : XPath.eval ⟨f, ns⟩ ⟨.node n.id, 1, 1⟩ .context =
            .ok (.nodes ([n].map (.node ·.id))) := XPath.eval.eq_1 _ _
        obtain ⟨failure, hfailure⟩ := XPath.exists_error_of_not_bind hf hlast
          (fun hbind => h ⟨hns, hwithin, hbind⟩) (Forest.Row.of_mem hmem) hcontext
        rw [hread]
        dsimp only
        rw [hfailure]
        rfl
      · have hread : XPath.parse? c = none := by
          rw [Option.eq_none_iff_forall_ne_some]
          intro e he
          refine hknown fun d hd => ?_
          rw [isKnown, XPath.not_isForeign_of_parseChars? he d hd]
          rfl
        rw [hread]
        rfl
    · refine ⟨.refused .illegalText, fun f root n _ _ => ?_⟩
      rw [selectFrom, evaluateNodes, hns]
      dsimp only
      rw [Bool.not_eq_true] at hmarkup
      rw [hmarkup]
      rfl

/-- **An expression is evaluated in all documents or in none.** -/
theorem readable_or_unreadable_of_spells : Readable ns c steps ∨ Unreadable ns c := by
  by_cases h : Legible ns c steps
  · exact .inl (h.readable (hspells h.within))
  · exact .inr (unreadable_of_not_legible hspells h)

end

/-! ## accepted expressions and their beginnings -/

/-- The pairs of an expression and a step that are left to be followed, behind the steps `pre`:
each expression selects what its steps lead to, or can't be evaluated. -/
def ReadAs (ns : Namespaces) (pre : List Step) (bs : List (String × Step)) : Prop :=
  ∀ before c s after, bs = before ++ (c, s) :: after →
    Readable ns c (pre ++ (before.map Prod.snd ++ [s])) ∨ Unreadable ns c

section
variable {ns : Namespaces} {pre : List Step} {bs : List (String × Step)}

theorem ReadAs.head {c : String} {s : Step} (h : ReadAs ns pre ((c, s) :: bs)) :
    Readable ns c (pre ++ [s]) ∨ Unreadable ns c := h [] c s bs rfl

theorem ReadAs.tail {b : String × Step} (h : ReadAs ns pre (b :: bs)) :
    ReadAs ns (pre ++ [b.2]) bs := by
  intro before c s after hbs
  have hread := h (b :: before) c s after (by rw [hbs]; rfl)
  rw [List.append_assoc]
  exact hread

theorem ReadAs.of_append {before : List (String × Step)} (h : ReadAs ns pre (before ++ bs)) :
    ReadAs ns (pre ++ before.map Prod.snd) bs := by
  induction before generalizing pre with
  | nil =>
    rw [List.map_nil, List.append_nil]
    exact h
  | cons b before ih =>
    rw [List.map_cons, ← List.singleton_append, ← List.append_assoc]
    exact ih h.tail

end

/-- There is a step in any case, and only the last one may be to an attribute. -/
theorem readSegments_ordered {source cs : List Char} {segs : List Segment}
    (h : readSegments source cs = .ok segs) :
    segs ≠ [] ∧ XPath.AttributeLast (segs.map Segment.step) := by
  rw [readSegments_ok_iff] at h
  induction h with
  | @last _ _ _ s _ _ =>
    refine ⟨by simp, ?_⟩
    cases s <;> trivial
  | @more _ _ _ _ s _ _ _ helement _ ih =>
    cases s with
    | element s => exact ⟨by simp, ih.2⟩
    | «attribute» a => exact absurd helement (by simp [Step.isAttribute])

section
variable {e : String} {p : Path} (hp : Path.parse e = .ok p)
include hp

theorem readable_or_unreadable (ns : Namespaces) : Readable ns e p.steps ∨ Unreadable ns e :=
  readable_or_unreadable_of_spells (spells_of_parse_of_within common_known.toClear hp)

theorem readAs_beginnings (ns : Namespaces) : ReadAs ns [] p.beginnings := by
  intro before c s after hb
  exact readable_or_unreadable_of_spells (spells_beginning common_known.toClear hp hb).2

theorem Path.steps_ne_nil : p.steps ≠ [] :=
  fun h => (readSegments_ordered (readSegments_of_parse hp).2.1).1 (List.map_eq_nil_iff.1 h)

theorem Path.attributeLast : XPath.AttributeLast p.steps :=
  (readSegments_ordered (readSegments_of_parse hp).2.1).2

/-- The beginnings of an expression that can be evaluated can be evaluated as well. -/
theorem Legible.readable_beginning {ns : Namespaces} (h : Legible ns e p.steps)
    {found missing : List (String × Step)} {c : String} {s : Step}
    (hb : p.beginnings = found ++ (c, s) :: missing) :
    Readable ns c (found.map Prod.snd ++ [s]) := by
  obtain ⟨⟨z, hz⟩, hspells⟩ := spells_beginning common_known.toClear hp hb
  have hwithin : Within isKnown isMarkupChar c.toList := by
    have hall := h.within
    rw [hz] at hall
    exact hall.of_append
  refine Legible.readable ⟨h.refusal, hwithin, fun t ht => h.bind t ?_⟩ (hspells hwithin)
  have hsteps := map_snd_beginningsFrom "" p.segments
  rw [← Path.beginnings, hb, List.map_append, List.map_cons] at hsteps
  rw [Path.steps, ← hsteps, ← List.singleton_append, ← List.append_assoc]
  exact List.mem_append_left _ ht

end

end XmlPaths

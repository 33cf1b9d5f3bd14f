import XmlPaths.Proofs.XPath.Lexing

/-!
# Steps in the full language

How the full language reads the steps of path expressions: a step is one to the child elements or
to the attributes of a name, and its clause is one predicate in which all comparisons are joined.

* `Comparison.toExpr`, `predicatesOf`, `Step.toExpr`   what comparisons, clauses and steps mean;
* `leftAssoc_of_operand`        an operand behind which no operator stands;
* `axisAndTest?_name`           a name is read as a step to the children of the name;
* `predicates?_more`            one predicate in front of others.
-/

namespace XmlPaths

open XPath (Expr Reader Operator EndsBefore goesOn)

/-! ## what is meant -/

def Comparison.toExpr (k : Comparison) : Expr :=
  match k.value with
  | none => .step .context .attribute (.named none k.name) []
  | some v => .binary .eq (.step .context .attribute (.named none k.name) []) (.literal v)

/-- the conjunction of an expression and further comparisons -/
def conjunction (e : Expr) (ks : List Comparison) : Expr :=
  ks.foldl (fun e k => .binary .and e k.toExpr) e

/-- the predicates for the comparisons of a step, at most one -/
def predicatesOf : List Comparison → List Expr
  | [] => []
  | k :: ks => [conjunction k.toExpr ks]

/-- a step from the nodes of `source` -/
def Step.toExpr (source : Expr) : Step → Expr
  | .element s => .step source .child (.named s.nsPrefix s.localName) (predicatesOf s.comparisons)
  | .attribute n => .step source .attribute (.named none n) []

def stepsExpr (source : Expr) (steps : List Step) : Expr := steps.foldl Step.toExpr source

namespace XPath

/-! ## names -/

section
variable {A : Alphabet} (hA : A.Known)
include hA

omit hA in
theorem namedTest?_bare {n z : List Char} (hz : EndsBefore ['[', '/', '=', 'a', ']'] z) :
    namedTest? n z = some (.named none (String.ofList n), z) := by
  unfold namedTest?
  split
  · next r h => exact absurd (hz.follows '(' (by rw [h]; rfl)) (by decide)
  · split
    · exact absurd (hz.stops ':' rfl) (by decide)
    · exact absurd (hz.stops ':' rfl) (by decide)
    · rfl

theorem namedTest?_qualified {p n z : List Char} (hn : A.IsName n)
    (hz : EndsBefore ['[', '/', '=', 'a', ']'] z) :
    namedTest? p (':' :: (n ++ z)) =
      some (.named (some (String.ofList p)) (String.ofList n), z) := by
  have htake := hA.takeNcName?_append hn hz.stops_isNameChar
  obtain ⟨c, cs, rfl, hc, -⟩ := hA.exists_cons_of_isName hn
  unfold namedTest?
  rw [skipSpace_of_stops (stops_cons.2 (by decide))]
  split
  · next r h => exact absurd (List.cons.inj h).1 (by decide)
  · split
    · next r h =>
      exact absurd (List.cons.inj (List.cons.inj h).2).1 (isNameStart_ne hc (by decide))
    · next r h =>
      rw [← (List.cons.inj h).2, htake]
    · next h => exact absurd rfl (h _)

theorem nodeTest?_name {n z : List Char} (hn : A.IsName n)
    (hz : EndsBefore ['[', '/', '=', 'a', ']'] z) :
    nodeTest? (n ++ z) = some (.named none (String.ofList n), z) := by
  have htake := hA.takeNcName?_append hn hz.stops_isNameChar
  obtain ⟨c, cs, rfl, hc, -⟩ := hA.exists_cons_of_isName hn
  have hblank := isMarkupBlank_of_isNameStart hc
  unfold nodeTest?
  rw [List.cons_append, skipSpace_of_stops (stops_cons.2 hblank)]
  split
  · next r h => exact absurd (List.cons.inj h).1 (isNameStart_ne hc (by decide))
  · rw [List.cons_append] at htake
    rw [htake]
    exact namedTest?_bare hz

theorem axisAndTest?_attribute {n z : List Char} (hn : A.IsName n)
    (hz : EndsBefore ['[', '/', '=', 'a', ']'] z) :
    axisAndTest? ('@' :: (n ++ z)) = some ((.attribute, .named none (String.ofList n)), z) := by
  rw [axisAndTest?, nodeTest?_name hA hn hz]
  rfl

/-- A name is that of a child element, even if it is the name of an axis. -/
theorem axisAndTest?_name {p : Option String} {l : String} {q z : List Char}
    (hq : A.SpellsName p l q) (hz : EndsBefore ['[', '/', '=', 'a', ']'] z) :
    axisAndTest? (q ++ z) = some ((.child, .named p l), z) := by
  cases hq with
  | bare hn =>
    have htake := hA.takeNcName?_append hn hz.stops_isNameChar
    obtain ⟨c, cs, rfl, hc, -⟩ := hA.exists_cons_of_isName hn
    unfold axisAndTest?
    split
    · next r h => exact absurd (List.cons.inj h).1 (isNameStart_ne hc (by decide))
    · rw [htake]
      dsimp only
      split
      · next r h => exact absurd (hz.follows ':' (by rw [h]; rfl)) (by decide)
      · rw [namedTest?_bare hz]
        rfl
  | @qualified p n hp hn =>
    have hcolon : Stops isNameChar (':' :: (n ++ z)) := stops_cons.2 (by decide)
    have htake := hA.takeNcName?_append hp hcolon
    have htest := namedTest?_qualified hA (p := p) hn hz
    obtain ⟨c, cs, rfl, hc, -⟩ := hA.exists_cons_of_isName hp
    obtain ⟨d, ds, rfl, hd, -⟩ := hA.exists_cons_of_isName hn
    have happ : (c :: cs) ++ ':' :: (d :: ds) ++ z = (c :: cs) ++ ':' :: (d :: ds ++ z) := by simp
    rw [happ]
    unfold axisAndTest?
    split
    · next r h => exact absurd (List.cons.inj h).1 (isNameStart_ne hc (by decide))
    · rw [htake]
      dsimp only
      rw [skipSpace_of_stops (stops_cons.2 (by decide))]
      split
      · next r h =>
        exact absurd (List.cons.inj (List.cons.inj h).2).1 (isNameStart_ne hd (by decide))
      · rw [htest]
        rfl

/-- A name begins a location path, whatever the full language calls by it. -/
theorem startsPrimary_name {p : Option String} {l : String} {q z : List Char}
    (hq : A.SpellsName p l q) (hz : EndsBefore ['[', '/', '=', 'a', ']'] z) :
    startsPrimary (q ++ z) = false := by
  obtain ⟨c, cs, rfl, hc, hcs⟩ : ∃ c cs, q = c :: cs ∧ isNameStart c = true ∧
      ∀ d ∈ cs, goesOn d = true := by
    cases hq with
    | bare hn =>
      have hgo := hA.goesOn_of_isName hn
      obtain ⟨c, cs, rfl, hc, -⟩ := hA.exists_cons_of_isName hn
      exact ⟨c, cs, rfl, hc, fun d hd => hgo d (List.mem_cons_of_mem _ hd)⟩
    | @qualified _ n hp hn =>
      have hgo := hA.goesOn_of_isName hp
      obtain ⟨c, cs, rfl, hc, -⟩ := hA.exists_cons_of_isName hp
      refine ⟨c, cs ++ ':' :: n, rfl, hc, fun d hd => ?_⟩
      rcases List.mem_append.1 hd with hd | hd
      · exact hgo d (List.mem_cons_of_mem _ hd)
      · rcases List.mem_cons.1 hd with rfl | hd
        · decide
        · exact hA.goesOn_of_isName hn d hd
  have hparen : ['('].isPrefixOf (skipSpace z) = false := by
    obtain h | ⟨d, ds, h, hd⟩ := hz.exists_cons
    · rw [h]
      rfl
    · rw [h, List.isPrefixOf_cons_cons, Bool.and_eq_false_iff]
      refine .inl (beq_eq_false_iff_ne.2 ?_)
      rintro rfl
      exact absurd hd (by decide)
  have hrest : (cs ++ z).dropWhile (fun d => isNameChar d || d == ':') = z := by
    show (cs ++ z).dropWhile goesOn = z
    rw [List.dropWhile_append_of_pos hcs, dropWhile_of_stops hz.stops]
  have hdigit := isDigit_eq_false_of_isNameStart hc
  have hne : ∀ d ∈ ['.', '$', '(', '\'', '"'], c ≠ d := by
    intro d hd
    simp only [List.mem_cons, List.not_mem_nil, or_false] at hd
    rcases hd with rfl | rfl | rfl | rfl | rfl <;> exact isNameStart_ne hc (by decide)
  simp only [List.mem_cons, List.not_mem_nil, or_false, forall_eq_or_imp, forall_eq] at hne
  obtain ⟨hdot, hdollar, hopen, hsingle, hdouble⟩ := hne
  rw [List.cons_append]
  unfold startsPrimary
  split
  · next h => exact absurd h (by simp)
  · next h => exact absurd (List.cons.inj h).1 hdot
  · next d ds _ h =>
    obtain ⟨rfl, rfl⟩ := List.cons.inj h
    simp only [hrest, hparen, hdollar, hopen, hsingle, hdouble, hdigit, hc, Bool.false_and,
      if_true, Bool.or_self, Bool.false_eq_true, if_false, beq_eq_false_iff_ne.2, ne_eq,
      not_false_eq_true]

end

/-! ## operators -/

section
variable {operand : Reader Expr} {operator : Operator} {e e' : Expr} {cs r r' : List Char}

theorem chain?_done (h : operator (skipSpace cs) = none) (n : Nat) :
    chain? operand operator n e cs = some (e, cs) := by
  cases n with
  | zero => rfl
  | succ n => rw [chain?, h]

theorem chain?_more {op : BinaryOp} (h : operator (skipSpace cs) = some (op, r))
    (h' : operand r = some (e', r')) (n : Nat) :
    chain? operand operator (n + 1) e cs = chain? operand operator n (.binary op e e') r' := by
  rw [chain?, h]
  dsimp only
  rw [h']

theorem leftAssoc_of_operand (h : operand cs = some (e, r)) (hr : operator (skipSpace r) = none) :
    leftAssoc operand operator cs = some (e, r) := by
  rw [leftAssoc, h]
  exact chain?_done hr _

theorem signed?_of_head_ne (h : (skipSpace cs).head? ≠ some '-') (n : Nat) :
    signed? operand n cs = operand cs := by
  cases n with
  | zero => rfl
  | succ n =>
    unfold signed?
    split
    · next r h' => exact absurd (by rw [h']; rfl) h
    · rfl

end

section
variable {expr : Reader Expr} {e : Expr} {cs r : List Char}

theorem relationalExpr_of_pathExpr (h : pathExpr? expr cs = some (e, r))
    (hcs : (skipSpace cs).head? ≠ some '-') (hr : EndsBefore ['=', 'a', ']'] r) :
    relationalExpr expr cs = some (e, r) := by
  have hunion : unionExpr expr cs = some (e, r) :=
    leftAssoc_of_operand h (hr.operator_eq_none rfl (by simp [unionOp]))
  have hunary : unaryExpr expr cs = some (e, r) := by
    rw [unaryExpr, signed?_of_head_ne hcs, hunion]
  have hmul : multiplicativeExpr expr cs = some (e, r) :=
    leftAssoc_of_operand hunary (hr.operator_eq_none rfl (by simp [multiplicativeOp]))
  have hadd : additiveExpr expr cs = some (e, r) :=
    leftAssoc_of_operand hmul (hr.operator_eq_none rfl (by simp [additiveOp]))
  exact leftAssoc_of_operand hadd (hr.operator_eq_none rfl (by simp [relationalOp]))

theorem orExpr_of_pathExpr (h : pathExpr? expr cs = some (e, r))
    (hcs : (skipSpace cs).head? ≠ some '-') (hr : EndsBefore [] r) :
    orExpr expr cs = some (e, r) := by
  have hnone : ∀ {op : Operator}, op [] = none → op (skipSpace r) = none := fun hnil =>
    hr.operator_eq_none hnil (by simp)
  have hrelational := relationalExpr_of_pathExpr h hcs (hr.mono (by simp))
  have hequality : equalityExpr expr cs = some (e, r) :=
    leftAssoc_of_operand hrelational (hnone rfl)
  have hand : andExpr expr cs = some (e, r) := leftAssoc_of_operand hequality (hnone rfl)
  exact leftAssoc_of_operand hand (hnone rfl)

/-! ## paths -/

theorem predicates?_done (hr : EndsBefore ['/', '=', 'a', ']'] r) (n : Nat) :
    predicates? expr n r = some ([], r) := by
  cases n with
  | zero => rfl
  | succ n =>
    unfold predicates?
    split
    · next r' h => exact absurd (hr.follows '[' (by rw [h]; rfl)) (by decide)
    · rfl

theorem predicates?_more {r' r'' rest : List Char} {es : List Expr} {n : Nat}
    (h : skipSpace cs = '[' :: r) (he : expr r = some (e, r')) (h' : skipSpace r' = ']' :: r'')
    (hes : predicates? expr n r'' = some (es, rest)) :
    predicates? expr (n + 1) cs = some (e :: es, rest) := by
  simp [predicates?, h, he, h', hes]

theorem moreSteps?_done (hr : EndsBefore ['=', 'a', ']'] r) (n : Nat) :
    moreSteps? expr n e r = some (e, r) := by
  cases n with
  | zero => rfl
  | succ n =>
    unfold moreSteps?
    split
    · next r' h => exact absurd (hr.follows '/' (by rw [h]; rfl)) (by decide)
    · next r' h => exact absurd (hr.follows '/' (by rw [h]; rfl)) (by decide)
    · rfl

theorem moreSteps?_more {r' : List Char} {e' : Expr} (h : skipSpace cs = '/' :: r)
    (hr : r.head? ≠ some '/') (hstep : step? expr e r = some (e', r')) (n : Nat) :
    moreSteps? expr (n + 1) e cs = moreSteps? expr n e' r' := by
  rw [moreSteps?, h]
  split
  · next heq =>
    rw [(List.cons.inj heq).2] at hr
    exact absurd rfl hr
  · next heq =>
    rw [← (List.cons.inj heq).2, hstep]
  · next hne => exact absurd rfl (hne r)

theorem step?_of_axisAndTest {u : List Char} {a : Axis} {t : NodeTest} {ps : List Expr}
    {source : Expr} {rest : List Char} (hu : ∀ c ∈ u, isMarkupBlank c = true)
    (hcs : Stops isMarkupBlank cs) (hdot : cs.head? ≠ some '.')
    (h : axisAndTest? cs = some ((a, t), r)) (hps : predicates? expr r.length r = some (ps, rest)) :
    step? expr source (u ++ cs) = some (.step source a t ps, rest) := by
  unfold step?
  rw [skipSpace_append hu, skipSpace_of_stops hcs]
  split
  · next r' h' => exact absurd rfl hdot
  · next r' h' => exact absurd rfl hdot
  · rw [h]
    dsimp only
    rw [hps]
    rfl

theorem pathExpr?_of_relative {u : List Char} (hu : ∀ c ∈ u, isMarkupBlank c = true)
    (hcs : Stops isMarkupBlank cs) (hp : startsPrimary cs = false)
    (hslash : cs.head? ≠ some '/') :
    pathExpr? expr (u ++ cs) =
      match step? expr .context cs with
      | some (e, r) => moreSteps? expr r.length e r
      | none => none := by
  rw [pathExpr?, skipSpace_append hu, skipSpace_of_stops hcs]
  dsimp only
  rw [hp, if_neg (by simp), locationPath?, skipSpace_of_stops hcs]
  split
  · exact absurd rfl hslash
  · rw [relativePath?, skipSpace_of_stops hcs]
    split
    · next h =>
      split at h
      · exact absurd rfl hslash
      · exact absurd rfl hslash
      · obtain ⟨rfl, rfl⟩ := Prod.mk.inj h
        rfl

end

end XPath

end XmlPaths

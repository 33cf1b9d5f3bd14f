import XmlPaths.Proofs.XPath.Steps

/-!
# Path expressions in the full language

The full language reads every path expression, over an alphabet that it knows, as the steps that it
spells.

* `XPath.equalityExpr_comparison`   a comparison is read as what it means;
* `XPath.orExpr_clause`             the comparisons of a clause are read as their conjunction;
* `XPath.step?_append`, `XPath.moreSteps?_append`   steps are read one after the other;
* `XPath.parseChars?_of_spells`     so is a path between blanks.
-/

namespace XmlPaths.XPath

variable {A : Alphabet} (hA : A.Known) (expr : Reader Expr)

/-! ## operands of comparisons -/

section
include hA

omit hA in
theorem startsPrimary_attribute (cs : List Char) : startsPrimary ('@' :: cs) = false := by
  have hstart : isNameStart '@' = false := by decide
  simp [startsPrimary, hstart]

theorem pathExpr?_attribute {n u z : List Char} (hn : A.IsName n) (hu : A.Blanks u)
    (hz : EndsBefore ['=', 'a', ']'] z) :
    pathExpr? expr (u ++ '@' :: (n ++ z)) =
      some (.step .context .attribute (.named none (String.ofList n)) [], z) := by
  have htest := axisAndTest?_attribute hA hn (hz.mono (by simp))
  have hnone : predicates? expr z.length z = some ([], z) :=
    predicates?_done (hz.mono (by simp)) _
  have hstop : Stops isMarkupBlank ('@' :: (n ++ z)) := stops_cons.2 (by decide)
  have hstep : step? expr .context ([] ++ '@' :: (n ++ z)) =
      some (.step .context .attribute (.named none (String.ofList n)) [], z) :=
    step?_of_axisAndTest (by simp) hstop (by simp) htest hnone
  rw [pathExpr?_of_relative (hA.blanks hu) hstop (startsPrimary_attribute _) (by simp)]
  rw [List.nil_append] at hstep
  rw [hstep]
  exact moreSteps?_done hz _

omit hA in
theorem pathExpr?_literal {v l u z : List Char} (hl : Alphabet.full.SpellsLiteral v l)
    (hu : ∀ c ∈ u, isMarkupBlank c = true) (hz : EndsBefore ['=', 'a', ']'] z) :
    pathExpr? expr (u ++ (l ++ z)) = some (.literal (String.ofList v), z) := by
  have htake := takeLiteral?_append hl z
  have hnone : predicates? expr z.length z = some ([], z) :=
    predicates?_done (hz.mono (by simp)) _
  cases hl with
  | @intro q _ hq hv hc =>
    have hstop : Stops isMarkupBlank (q :: (v ++ [q]) ++ z) := by
      rw [List.cons_append]
      rcases hq with rfl | rfl <;> exact stops_cons.2 (by decide)
    have hprimary : startsPrimary (q :: (v ++ [q]) ++ z) = true := by
      rw [List.cons_append]
      rcases hq with rfl | rfl <;> rfl
    have hread : primary? expr (q :: (v ++ [q]) ++ z) = some (.literal (String.ofList v), z) := by
      rw [List.cons_append] at htake ⊢
      rcases hq with rfl | rfl
      · rw [primary?, htake]
        rfl
      · rw [primary?, htake]
        rfl
    rw [pathExpr?, skipSpace_append hu, skipSpace_of_stops hstop]
    dsimp only
    rw [if_pos hprimary, hread]
    dsimp only
    rw [hnone]
    dsimp only [List.foldl_nil]
    split
    · next r h => exact absurd (hz.follows '/' (by rw [h]; rfl)) (by decide)
    · next r h => exact absurd (hz.follows '/' (by rw [h]; rfl)) (by decide)
    · rfl

theorem equalityExpr_comparison {k : Comparison} {t u z : List Char}
    (hk : A.SpellsComparison k t) (hu : A.Blanks u) (hz : EndsBefore ['a', ']'] z) :
    equalityExpr expr (u ++ (t ++ z)) = some (k.toExpr, z) := by
  have hat : ∀ r, (skipSpace (u ++ '@' :: r)).head? ≠ some '-' := by
    intro r
    rw [skipSpace_append (hA.blanks hu), skipSpace_of_stops (stops_cons.2 (by decide))]
    simp
  have hend : equalityOp (skipSpace z) = none := hz.operator_eq_none rfl (by simp [equalityOp])
  cases hk with
  | @present n hn =>
    have hpath := pathExpr?_attribute hA expr hn hu (hz.mono (by simp))
    exact leftAssoc_of_operand
      (relationalExpr_of_pathExpr hpath (hat _) (hz.mono (by simp))) hend
  | @demanded n x w v l hn hx hw hl =>
    have hz' : EndsBefore ['=', 'a', ']'] (x ++ '=' :: (w ++ (l ++ z))) :=
      endsBefore_append (hA.blanks hx) (by simp) (by decide) fun _ => by decide
    have hleft := relationalExpr_of_pathExpr
      (pathExpr?_attribute hA expr hn hu hz') (hat _) hz'
    have hop : equalityOp (skipSpace (x ++ '=' :: (w ++ (l ++ z)))) =
        some (.eq, w ++ (l ++ z)) := by
      rw [skipSpace_append (hA.blanks hx), skipSpace_of_stops (stops_cons.2 (by decide))]
      rfl
    have hquote : (skipSpace (w ++ (l ++ z))).head? ≠ some '-' := by
      rw [skipSpace_append (hA.blanks hw)]
      cases hl with
      | intro hq _ _ =>
        rcases hq with rfl | rfl <;>
          rw [List.cons_append, skipSpace_of_stops (stops_cons.2 (by decide))] <;> simp
    have hright := relationalExpr_of_pathExpr
      (pathExpr?_literal expr (Alphabet.Separate.spellsLiteral hl) (hA.blanks hw)
        (hz.mono (by simp))) hquote (hz.mono (by simp))
    have happ : u ++ ('@' :: (n ++ (x ++ '=' :: (w ++ l))) ++ z) =
        u ++ '@' :: (n ++ (x ++ '=' :: (w ++ (l ++ z)))) := by simp
    have hlength : (x ++ '=' :: (w ++ (l ++ z))).length =
        (x ++ (w ++ (l ++ z))).length + 1 := by
      simp only [List.length_append, List.length_cons]
      omega
    rw [happ, equalityExpr, leftAssoc, hleft]
    dsimp only
    rw [hlength, chain?_more hop hright, chain?_done hend]
    rfl

/-! ## clauses -/

/-- Further comparisons are joined to the ones before. -/
theorem chain?_joints {ks : List Comparison} {ts : List Char} (hks : A.SpellsJoints ks ts)
    {z : List Char} (hz : EndsBefore [']'] z) :
    EndsBefore ['a', ']'] (ts ++ z) ∧
      ∀ (e : Expr) (n : Nat), ts.length ≤ n →
        chain? (equalityExpr expr) andOp n e (ts ++ z) = some (conjunction e ks, z) := by
  induction hks with
  | nil =>
    have hend : andOp (skipSpace z) = none := hz.operator_eq_none rfl (by simp [andOp])
    exact ⟨hz.mono (by simp), fun e n _ => chain?_done hend n⟩
  | @cons k ks t ts u w hu hu' hw _ hk _ ih =>
    obtain ⟨hends, hchain⟩ := ih
    have happ : u ++ 'a' :: 'n' :: 'd' :: (w ++ (t ++ ts)) ++ z =
        u ++ 'a' :: 'n' :: 'd' :: (w ++ (t ++ (ts ++ z))) := by simp
    rw [happ]
    refine ⟨endsBefore_append (hA.blanks hu) (by simp) (by decide) fun h => absurd h hu', ?_⟩
    intro e n hn
    obtain ⟨n, rfl⟩ : ∃ m, n = m + 1 := by
      refine ⟨n - 1, ?_⟩
      simp only [List.length_append, List.length_cons] at hn
      omega
    have hop : andOp (skipSpace (u ++ 'a' :: 'n' :: 'd' :: (w ++ (t ++ (ts ++ z))))) =
        some (.and, w ++ (t ++ (ts ++ z))) := by
      rw [skipSpace_append (hA.blanks hu), skipSpace_of_stops (stops_cons.2 (by decide))]
      rfl
    have hlength : ts.length ≤ n := by
      simp only [List.length_append, List.length_cons] at hn
      omega
    rw [chain?_more hop (equalityExpr_comparison hA expr hk hw hends), hchain _ _ hlength]
    rfl

/-- The comparisons of a clause are read as their conjunction. -/
theorem orExpr_clause {k : Comparison} {ks : List Comparison} {t ts u z : List Char}
    (hu : A.Blanks u) (hk : A.SpellsComparison k t) (hks : A.SpellsJoints ks ts)
    (hz : EndsBefore [']'] z) :
    orExpr expr (u ++ (t ++ (ts ++ z))) = some (conjunction k.toExpr ks, z) := by
  obtain ⟨hends, hchain⟩ := chain?_joints hA expr hks hz
  have hend : orOp (skipSpace z) = none := hz.operator_eq_none rfl (by simp [orOp])
  have hand : andExpr expr (u ++ (t ++ (ts ++ z))) = some (conjunction k.toExpr ks, z) := by
    rw [andExpr, leftAssoc, equalityExpr_comparison hA expr hk hu hends]
    dsimp only
    exact hchain _ _ (by simp)
  exact leftAssoc_of_operand hand hend

/-- A clause is read as one predicate; brackets are nested once. -/
theorem predicates?_append {ks : List Comparison} {d z : List Char}
    (hd : A.SpellsDemands ks d) (hz : EndsBefore ['/', '=', 'a', ']'] z) {n depth : Nat}
    (hn : d.length ≤ n) :
    predicates? (expressionAt (depth + 1)) n (d ++ z) = some (predicatesOf ks, z) := by
  cases hd with
  | absent => exact predicates?_done hz n
  | @clause _ u c hu hc =>
    cases hc with
    | @intro k ks t ts x w hx hk hks hw =>
      obtain ⟨n, rfl⟩ : ∃ m, n = m + 1 := by
        refine ⟨n - 1, ?_⟩
        simp only [List.length_append, List.length_cons] at hn
        omega
      have happ : u ++ '[' :: (x ++ (t ++ (ts ++ (w ++ [']'])))) ++ z =
          u ++ '[' :: (x ++ (t ++ (ts ++ (w ++ ']' :: z)))) := by simp
      have hends : EndsBefore [']'] (w ++ ']' :: z) :=
        endsBefore_append (hA.blanks hw) (by simp) (by decide) fun _ => by decide
      have hclause : expressionAt (depth + 1) (x ++ (t ++ (ts ++ (w ++ ']' :: z)))) =
          some (conjunction k.toExpr ks, w ++ ']' :: z) := orExpr_clause hA _ hx hk hks hends
      have hopen : skipSpace (u ++ '[' :: (x ++ (t ++ (ts ++ (w ++ ']' :: z))))) =
          '[' :: (x ++ (t ++ (ts ++ (w ++ ']' :: z)))) := by
        rw [skipSpace_append (hA.blanks hu), skipSpace_of_stops (stops_cons.2 (by decide))]
      have hclose : skipSpace (w ++ ']' :: z) = ']' :: z := by
        rw [skipSpace_append (hA.blanks hw), skipSpace_of_stops (stops_cons.2 (by decide))]
      rw [happ]
      exact predicates?_more hopen hclause hclose (predicates?_done hz n)

/-! ## paths -/

theorem endsBefore_demands {ks : List Comparison} {d z : List Char} (hd : A.SpellsDemands ks d)
    (hz : EndsBefore ['/', '=', 'a', ']'] z) : EndsBefore ['[', '/', '=', 'a', ']'] (d ++ z) := by
  cases hd with
  | absent => exact hz.mono (by simp)
  | clause hu hc =>
    cases hc
    rw [List.append_assoc]
    exact endsBefore_append (hA.blanks hu) (by simp) (by decide) fun _ => by decide

/-- A name begins with a character of names, hence with no blank, dot, slash or sign. -/
theorem start_of_name {p : Option String} {l : String} {q : List Char} (hq : A.SpellsName p l q)
    (z : List Char) :
    Stops isMarkupBlank (q ++ z) ∧ ∀ d ∈ ['.', '/', '-'], (q ++ z).head? ≠ some d := by
  obtain ⟨c, cs, rfl, hc⟩ : ∃ c cs, q = c :: cs ∧ isNameStart c = true := by
    cases hq with
    | bare hn =>
      obtain ⟨c, cs, rfl, hc, -⟩ := hA.exists_cons_of_isName hn
      exact ⟨c, cs, rfl, hc⟩
    | @qualified _ n hp _ =>
      obtain ⟨c, cs, rfl, hc, -⟩ := hA.exists_cons_of_isName hp
      exact ⟨c, cs ++ ':' :: n, rfl, hc⟩
  refine ⟨stops_cons.2 (isMarkupBlank_of_isNameStart hc), fun d hd h => ?_⟩
  obtain rfl : c = d := by simpa using h
  simp only [List.mem_cons, List.not_mem_nil, or_false] at hd
  rcases hd with rfl | rfl | rfl <;> exact absurd hc (by decide)

/-- A step begins with a name or an at sign, hence with no blank, dot, slash or sign. -/
theorem start_of_step {s : Step} {t : List Char} (hs : A.SpellsStep s t) (z : List Char) :
    Stops isMarkupBlank (t ++ z) ∧ ∀ d ∈ ['.', '/', '-'], (t ++ z).head? ≠ some d := by
  cases hs with
  | toAttribute hn =>
    rw [List.cons_append]
    refine ⟨stops_cons.2 (by decide), fun d hd h => ?_⟩
    obtain rfl : '@' = d := by simpa using h
    exact absurd hd (by decide)
  | toElement hq hd =>
    rw [List.append_assoc]
    exact start_of_name hA hq _

/-- A step is read as what it means; in its clause no brackets are nested. -/
theorem step?_append {s : Step} {t u z : List Char} (hs : A.SpellsStep s t) (hu : A.Blanks u)
    (hz : EndsBefore ['/', '=', 'a', ']'] z) (source : Expr) (depth : Nat) :
    step? (expressionAt (depth + 1)) source (u ++ (t ++ z)) = some (s.toExpr source, z) := by
  obtain ⟨hstop, hhead⟩ := start_of_step hA hs z
  cases hs with
  | toAttribute hn =>
    exact step?_of_axisAndTest (hA.blanks hu) hstop (hhead '.' (by simp))
      (axisAndTest?_attribute hA hn (hz.mono (by simp))) (predicates?_done hz _)
  | @toElement p l ks q d hq hd =>
    have htest := axisAndTest?_name hA hq (endsBefore_demands hA hd hz)
    rw [← List.append_assoc] at htest
    exact step?_of_axisAndTest (hA.blanks hu) hstop (hhead '.' (by simp)) htest
      (predicates?_append hA hd hz (by simp))

theorem start_of_path {steps : List Step} {t : List Char} (ht : A.SpellsPath steps t)
    (z : List Char) :
    Stops isMarkupBlank (t ++ z) ∧ ∀ d ∈ ['.', '/', '-'], (t ++ z).head? ≠ some d := by
  cases ht with
  | last hs => exact start_of_step hA hs z
  | more hs _ _ _ =>
    rw [List.append_assoc]
    exact start_of_step hA hs _

omit hA in
theorem ne_nil_of_path {steps : List Step} {t : List Char} (ht : A.SpellsPath steps t) :
    t ≠ [] := by
  cases ht with
  | last hs =>
    cases hs with
    | toAttribute _ => simp
    | toElement hq _ =>
      cases hq with
      | bare hn =>
        obtain ⟨c, cs, rfl, -⟩ := hn.exists_cons
        simp
      | qualified _ _ => simp
  | more hs _ _ _ => simp

theorem moreSteps?_append {steps : List Step} {t : List Char} (ht : A.SpellsPath steps t)
    {z : List Char} (hz : EndsBefore ['=', 'a', ']'] z) (depth : Nat) {u : List Char}
    (hu : A.Blanks u) (source : Expr) :
    ∃ e r, r.length ≤ (t ++ z).length ∧
      step? (expressionAt (depth + 1)) source (u ++ (t ++ z)) = some (e, r) ∧
      ∀ n, r.length ≤ n →
        moreSteps? (expressionAt (depth + 1)) n e r = some (stepsExpr source steps, z) := by
  induction ht generalizing u source with
  | @last s t hs =>
    have hstep := step?_append hA hs hu (hz.mono (by simp)) source depth
    exact ⟨_, _, by simp, hstep, fun n _ => moreSteps?_done hz n⟩
  | @more s rest t r x w hs hx hw hr ih =>
    have happ : t ++ (x ++ '/' :: (w ++ r)) ++ z = t ++ (x ++ '/' :: (w ++ (r ++ z))) := by simp
    have hends : EndsBefore ['/', '=', 'a', ']'] (x ++ '/' :: (w ++ (r ++ z))) :=
      endsBefore_append (hA.blanks hx) (by simp) (by decide) fun _ => by decide
    have hstep := step?_append hA hs hu hends source depth
    have hslash : skipSpace (x ++ '/' :: (w ++ (r ++ z))) = '/' :: (w ++ (r ++ z)) := by
      rw [skipSpace_append (hA.blanks hx), skipSpace_of_stops (stops_cons.2 (by decide))]
    have hsingle : (w ++ (r ++ z)).head? ≠ some '/' := by
      cases w with
      | nil => exact (start_of_path hA hr z).2 '/' (by simp)
      | cons c w =>
        intro h
        obtain rfl : c = '/' := by simpa using h
        exact absurd (hA.blanks hw '/' (by simp)) (by decide)
    obtain ⟨e, r', hlength, hnext, hmore⟩ := ih hw ((Step.element s).toExpr source)
    rw [happ]
    refine ⟨_, _, by simp, hstep, fun n hn => ?_⟩
    -- the slash in front of the next step pays for one more round
    have hn' : r'.length + 1 ≤ n := by
      simp only [List.length_append, List.length_cons] at hn hlength
      omega
    obtain ⟨m, rfl⟩ : ∃ m, n = m + 1 := ⟨n - 1, by omega⟩
    rw [moreSteps?_more hslash hsingle hnext]
    exact hmore m (by omega)

/-! ## whole expressions -/

theorem startsPrimary_path {steps : List Step} {t : List Char} (ht : A.SpellsPath steps t)
    {z : List Char} (hz : EndsBefore ['=', 'a', ']'] z) : startsPrimary (t ++ z) = false := by
  have hstep : ∀ {s : Step} {t z : List Char}, A.SpellsStep s t →
      EndsBefore ['/', '=', 'a', ']'] z → startsPrimary (t ++ z) = false := by
    intro s t z hs hz
    cases hs with
    | toAttribute hn => exact startsPrimary_attribute _
    | toElement hq hd =>
      rw [List.append_assoc]
      exact startsPrimary_name hA hq (endsBefore_demands hA hd hz)
  cases ht with
  | last hs => exact hstep hs (hz.mono (by simp))
  | more hs hx _ _ =>
    rw [List.append_assoc]
    refine hstep hs ?_
    rw [List.append_assoc]
    exact endsBefore_append (hA.blanks hx) (by simp) (by decide) fun _ => by decide

theorem parseChars?_of_spells {steps : List Step} {cs : List Char} (h : A.Spells steps cs) :
    parseChars? cs = some (stepsExpr .context steps) := by
  obtain ⟨u, t, w, hu, ht, hw, rfl⟩ := h
  have hends : EndsBefore [] w := endsBefore_blanks (hA.blanks hw)
  obtain ⟨hstop, hhead⟩ := start_of_path hA ht w
  -- one depth for the path, another one for its clauses
  obtain ⟨depth, hdepth⟩ : ∃ depth, (u ++ (t ++ w)).length = depth + 1 := by
    refine ⟨(u ++ (t ++ w)).length - 1, ?_⟩
    have hpos := List.length_pos_iff.2 (ne_nil_of_path ht)
    simp only [List.length_append]
    omega
  obtain ⟨e, r, -, hstep, hmore⟩ :=
    moreSteps?_append hA ht (hends.mono (by simp)) depth Alphabet.blanks_nil .context
  have hpath : pathExpr? (expressionAt (depth + 1)) (u ++ (t ++ w)) =
      some (stepsExpr .context steps, w) := by
    rw [List.nil_append] at hstep
    rw [pathExpr?_of_relative (hA.blanks hu) hstop
      (startsPrimary_path hA ht (hends.mono (by simp))) (hhead '/' (by simp)), hstep]
    exact hmore _ (Nat.le_refl _)
  have hsign : (skipSpace (u ++ (t ++ w))).head? ≠ some '-' := by
    rw [skipSpace_append (hA.blanks hu), skipSpace_of_stops hstop]
    exact hhead '-' (by simp)
  have hread : expressionAt (depth + 2) (u ++ (t ++ w)) = some (stepsExpr .context steps, w) :=
    orExpr_of_pathExpr hpath hsign hends
  have hblank : skipSpace w = [] := by
    have hskip := skipSpace_append (hA.blanks hw) []
    rwa [List.append_nil] at hskip
  rw [parseChars?, hdepth, hread]
  dsimp only
  rw [hblank]
  rfl

end

end XmlPaths.XPath

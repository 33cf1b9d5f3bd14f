import XmlPaths.Build.Placement
import XmlPaths.Proofs.Tree.Naming

/-!
# The last child of a name

With a position for its only predicate, a name is no path expression; the full language finds the
last child of the name with it.

* `Namespaces.Denotes`       the name of elements that a text stands for;
* `XPath.parseChars?_last`   how the full language reads a name and the position of the last;
* `XPath.select_last`        of tested nodes the last one is kept;
* `selectFrom_lastNamed`     what is selected is the last child of the name;
* `exists_denotes_of_selectFrom`   if anything is selected at all, the name stands for one.
-/

namespace XmlPaths

open Alphabet

/-! ## names of elements -/

/-- The text stands for the name of elements: without a prefix it has no namespace, with one it has
the namespace that the prefix is bound to. -/
inductive Namespaces.Denotes (ns : Namespaces) : String → Name → Prop where
  | bare {l : String} (hl : isNcName l = true) : Denotes ns l ⟨none, l⟩
  | qualified {p l uri : String} (hp : isNcName p = true) (hl : isNcName l = true)
      (huri : ns.space? p = some uri) : Denotes ns (p ++ ":" ++ l) ⟨some uri, l⟩

namespace XPath

/-- the alphabet of all names of the full language -/
def names : Alphabet := ⟨isMarkupBlank, isNameStart, isNameChar, fun _ => true⟩

theorem known_names : names.Known := ⟨id, id, id⟩

theorem isName_of_isNcName {l : String} (h : isNcName l = true) : names.IsName l.toList := by
  rw [isNcName, Bool.and_eq_true, Bool.not_eq_true', List.contains_eq_mem,
    decide_eq_false_iff_not] at h
  obtain ⟨hchars, hogham⟩ := h
  cases hl : l.toList with
  | nil =>
    rw [hl] at hchars
    exact absurd hchars (by simp [isNcNameChars])
  | cons c cs =>
    rw [hl, isNcNameChars, Bool.and_eq_true, List.all_eq_true] at hchars
    rw [hl, List.mem_cons, not_or] at hogham
    have hne : ∀ {d}, d ∈ cs → (d != oghamSpace) = true := by
      intro d hd
      rw [bne_iff_ne]
      rintro rfl
      exact hogham.2 hd
    refine ⟨?_, fun d hd => ?_⟩
    · show isNameStart c = true
      rw [isNameStart, hchars.1, Bool.true_and, bne_iff_ne]
      exact fun hc => hogham.1 hc.symm
    · show isNameChar d = true
      rw [isNameChar, hchars.2 d hd, hne hd]
      rfl

end XPath

section
variable {ns : Namespaces} {name : String} {m : Name}

/-- the prefix and the local part of a name, as the full language spells it -/
theorem Namespaces.Denotes.exists_spellsName (h : ns.Denotes name m) :
    ∃ p, XPath.names.SpellsName p m.localName name.toList ∧
      ∀ f, XPath.Scope.spaceOf ⟨f, ns⟩ p = .ok m.space := by
  cases h with
  | bare hl =>
    have hspells := SpellsName.bare (XPath.isName_of_isNcName hl)
    rw [String.ofList_toList] at hspells
    exact ⟨none, hspells, fun f => rfl⟩
  | @qualified p l uri hp hl huri =>
    have hspells := SpellsName.qualified (XPath.isName_of_isNcName hp) (XPath.isName_of_isNcName hl)
    rw [String.ofList_toList, String.ofList_toList] at hspells
    refine ⟨some p, ?_, fun f => ?_⟩
    · rw [String.toList_append, String.toList_append, List.append_assoc]
      exact hspells
    · have huri' : XPath.Scope.space? ⟨f, ns⟩ p = some uri := huri
      rw [XPath.Scope.spaceOf, huri']

theorem Namespaces.Denotes.isMarkupText (h : ns.Denotes name m) : isMarkupText name = true := by
  cases h with
  | bare hl => exact isMarkupText_of_isNcName hl
  | qualified hp hl huri =>
    have hp' := isMarkupText_of_isNcName hp
    have hl' := isMarkupText_of_isNcName hl
    rw [XmlPaths.isMarkupText] at hp' hl' ⊢
    rw [String.toList_append, String.toList_append, List.all_append, List.all_append, hp', hl']
    rfl

end

/-! ## how the position is read -/

namespace XPath

/-- the number of the nodes that a predicate is tested for -/
def lastPosition : Expr := .call none "last" []

section
variable {p : Option String} {l : String} {q : List Char} (hq : names.SpellsName p l q)
include hq

theorem parseChars?_last : parseChars? (q ++ "[last()]".toList) =
    some (.step .context .child (.named p l) [lastPosition]) := by
  have hz : EndsBefore ['[', '/', '=', 'a', ']'] "[last()]".toList :=
    endsBefore_append (u := []) (c := '[') (by simp) (by simp) (by decide) fun _ => by decide
  obtain ⟨hstop, hhead⟩ := start_of_name known_names hq "[last()]".toList
  obtain ⟨depth, hdepth⟩ : ∃ depth, (q ++ "[last()]".toList).length = depth + 1 := by
    refine ⟨q.length + 7, ?_⟩
    rw [List.length_append]
    rfl
  have hclause : expressionAt (depth + 1) "last()]".toList = some (lastPosition, [']']) := rfl
  have hread : predicates? (expressionAt (depth + 1)) "[last()]".toList.length "[last()]".toList =
      some ([lastPosition], []) :=
    predicates?_more rfl hclause rfl rfl
  have hstep : step? (expressionAt (depth + 1)) .context ([] ++ (q ++ "[last()]".toList)) =
      some (.step .context .child (.named p l) [lastPosition], []) :=
    step?_of_axisAndTest (by simp) hstop (hhead '.' (by simp))
      (axisAndTest?_name known_names hq hz) hread
  have hpath : pathExpr? (expressionAt (depth + 1)) ([] ++ (q ++ "[last()]".toList)) =
      some (.step .context .child (.named p l) [lastPosition], []) := by
    rw [List.nil_append] at hstep
    rw [pathExpr?_of_relative (by simp) hstop (startsPrimary_name known_names hq hz)
      (hhead '/' (by simp)), hstep]
    rfl
  have hsign : (skipSpace (q ++ "[last()]".toList)).head? ≠ some '-' := by
    rw [skipSpace_of_stops hstop]
    exact hhead '-' (by simp)
  have hwhole : expressionAt (depth + 2) (q ++ "[last()]".toList) =
      some (.step .context .child (.named p l) [lastPosition], []) :=
    orExpr_of_pathExpr hpath hsign (endsBefore_blanks (by simp))
  rw [parseChars?, hdepth, hwhole]
  rfl

end

/-! ## what is at the last position -/

/-- Of the nodes that are told by their positions the last one is kept. -/
theorem select_last {size : Nat} {rs : List Ref} {i : Nat} (h : i + rs.length = size + 1) :
    select (fun _ j => .ok ((Value.number (.ofNat size)).admits j)) i rs =
      .ok rs.getLast?.toList := by
  induction rs generalizing i with
  | nil => rfl
  | cons r rs ih =>
    rw [List.length_cons] at h
    have hadmits : (Value.number (.ofNat size)).admits i = decide (size = i) := by
      show ((size : Rat) == (i : Rat)) = decide (size = i)
      rw [Bool.eq_iff_iff, beq_iff_eq, decide_eq_true_eq, Rat.natCast_inj]
    rw [select, ih (by omega), hadmits]
    cases rs with
    | nil =>
      rw [List.length_nil] at h
      rw [decide_eq_true (by omega)]
      rfl
    | cons r' rs =>
      rw [List.length_cons] at h
      rw [decide_eq_false (by omega), List.getLast?_cons_cons]
      rfl

section
variable {f : Forest} (hf : f.Sound) {n : Node} (hn : n ∈ f.nodes) {ns : Namespaces}
  {p : Option String} {m : Name} (hspace : Scope.spaceOf ⟨f, ns⟩ p = .ok m.space)
include hf hn hspace

/-- The last child of a name is what a step with the last position leads to. -/
theorem eval_lastNamed : eval ⟨f, ns⟩ ⟨.node n.id, 1, 1⟩
    (.step .context .child (.named p m.localName) [lastPosition]) =
      .ok (.nodes ((n.children.filter (·.isNamed m)).getLast?.toList.map (.node ·.id))) := by
  have hlast : ∀ rs, evalPredicates ⟨f, ns⟩ [lastPosition] rs = .ok rs.getLast?.toList := by
    intro rs
    have htest : ∀ r j, eval ⟨f, ns⟩ ⟨r, j, rs.length⟩ lastPosition =
        .ok (.number (.ofNat rs.length)) := fun r j => by
      rw [lastPosition, eval, evalAll]
      rfl
    simp only [evalPredicates, htest]
    rw [select_last (Nat.add_comm 1 rs.length)]
  have hfound : collect (fun r => evalPredicates ⟨f, ns⟩ [lastPosition]
      ((f.axis .child r).filter (accepts f .child m.space (.named p m.localName)))) [.node n.id] =
      .ok ((n.children.filter (·.isNamed m)).getLast?.toList.map (.node ·.id)) := by
    rw [collect, hlast, children_named hf hn, List.getLast?_map]
    dsimp only [collect]
    rw [List.append_nil, Option.toList_map]
  have hsub : ((n.children.filter (·.isNamed m)).getLast?.toList.map (Ref.node ·.id)).Sublist
      (f.nodes.flatMap Node.ownRefs) := by
    cases hc : (n.children.filter (·.isNamed m)).getLast? with
    | none => exact List.nil_sublist _
    | some c =>
      have hmem : c ∈ f.nodes := Forest.mem_nodes_of_mem_children hn
        (List.mem_filter.1 (List.mem_of_getLast? hc)).1
      refine List.singleton_sublist.2 (List.mem_flatMap.2 ⟨c, hmem, ?_⟩)
      exact List.mem_cons_self
  rw [eval_step_of_source ns (eval.eq_1 _ _) hspace hfound, hf.inOrder_of_sublist hsub]

end

end XPath

/-- A text stands for one name only. -/
theorem Namespaces.Denotes.unique {ns : Namespaces} {name : String} {m m' : Name}
    (h : ns.Denotes name m) (h' : ns.Denotes name m') : m = m' := by
  obtain ⟨p, hspells, hspace⟩ := h.exists_spellsName
  obtain ⟨p', hspells', hspace'⟩ := h'.exists_spellsName
  have hread := XPath.parseChars?_last hspells
  rw [XPath.parseChars?_last hspells', Option.some.injEq, XPath.Expr.step.injEq,
    XPath.NodeTest.named.injEq] at hread
  obtain ⟨-, -, ⟨rfl, hlocal⟩, -⟩ := hread
  have hsame := hspace Forest.empty
  rw [hspace' Forest.empty, Except.ok.injEq] at hsame
  obtain ⟨space, l⟩ := m
  obtain ⟨space', l'⟩ := m'
  exact congrArg₂ Name.mk hsame.symm hlocal.symm

/-- **What the last position selects of a name is the last child of that name**, if any child has
it. -/
theorem selectFrom_lastNamed {f : Forest} (hf : f.Sound) {x : NodeId} {n : Node}
    (hx : f.node? x = some n) {ns : Namespaces} (hns : ns.refusal? = none) {name : String}
    {m : Name} (h : ns.Denotes name m) :
    selectFrom f x (lastNamed name) ns =
      .ok ((n.children.filter (·.isNamed m)).getLast?.toList.map (.node ·.id)) := by
  obtain ⟨hmem, rfl⟩ := Forest.mem_of_node? hx
  obtain ⟨p, hspells, hspace⟩ := h.exists_spellsName
  have hmarkup : isMarkupText (lastNamed name) = true := by
    have hname := h.isMarkupText
    rw [isMarkupText] at hname ⊢
    rw [lastNamed, String.toList_append, List.all_append, hname]
    decide
  have hread : XPath.parse? (lastNamed name) =
      some (.step .context .child (.named p m.localName) [XPath.lastPosition]) := by
    rw [XPath.parse?, lastNamed, String.toList_append]
    exact XPath.parseChars?_last hspells
  rw [selectFrom, evaluateNodes, hns]
  dsimp only
  rw [hmarkup, hread, if_neg (by simp)]
  dsimp only
  rw [XPath.eval_lastNamed hf hmem (hspace f)]
  cases (n.children.filter (·.isNamed m)).getLast? <;> rfl

/-! ## names with unbound prefixes -/

/-- a name of elements, with a prefix that may be bound or not, or without one -/
inductive NamesElement : String → Prop where
  | bare {l : String} (hl : isNcName l = true) : NamesElement l
  | qualified {p l : String} (hp : isNcName p = true) (hl : isNcName l = true) :
      NamesElement (p ++ ":" ++ l)

/-- A name whose prefix isn't bound can't be evaluated. -/
theorem selectFrom_of_unbound (f : Forest) (x : NodeId) {ns : Namespaces} {p l : String}
    (hp : isNcName p = true) (hl : isNcName l = true) (hspace : ns.space? p = none) :
    ∃ failure, selectFrom f x (lastNamed (p ++ ":" ++ l)) ns = .error failure := by
  have hspells := SpellsName.qualified (XPath.isName_of_isNcName hp) (XPath.isName_of_isNcName hl)
  rw [String.ofList_toList, String.ofList_toList] at hspells
  have hread : XPath.parse? (lastNamed (p ++ ":" ++ l)) =
      some (.step .context .child (.named (some p) l) [XPath.lastPosition]) := by
    have htext : (lastNamed (p ++ ":" ++ l)).toList =
        (p.toList ++ ':' :: l.toList) ++ "[last()]".toList := by
      rw [lastNamed, String.toList_append, String.toList_append, String.toList_append,
        List.append_assoc p.toList]
      rfl
    rw [XPath.parse?, htext]
    exact XPath.parseChars?_last hspells
  have hunbound : XPath.Scope.spaceOf ⟨f, ns⟩ (some p) = .error (.undefinedPrefix p) := by
    have hspace' : XPath.Scope.space? ⟨f, ns⟩ p = none := hspace
    rw [XPath.Scope.spaceOf, hspace']
  have heval : XPath.eval ⟨f, ns⟩ ⟨.node x, 1, 1⟩
      (.step .context .child (.named (some p) l) [XPath.lastPosition]) =
        .error (.undefinedPrefix p) := by
    rw [XPath.eval, XPath.eval]
    dsimp only [XPath.NodeTest.nsPrefix?]
    rw [hunbound]
  rw [selectFrom, evaluateNodes]
  cases ns.refusal? with
  | some r => exact ⟨_, rfl⟩
  | none =>
    dsimp only
    split
    · exact ⟨_, rfl⟩
    · rw [hread]
      dsimp only
      rw [heval]
      exact ⟨_, rfl⟩

/-- Where the last child of a name is found or found to be missing, the name stands for one. -/
theorem exists_denotes_of_selectFrom {f : Forest} {x : NodeId} {ns : Namespaces} {name : String}
    (hname : NamesElement name) {selected : List Selected}
    (h : selectFrom f x (lastNamed name) ns = .ok selected) :
    ns.refusal? = none ∧ ∃ m, ns.Denotes name m := by
  refine ⟨?_, ?_⟩
  · cases hns : ns.refusal? with
    | none => rfl
    | some r =>
      rw [selectFrom_of_refusal hns] at h
      exact absurd h (by simp)
  · cases hname with
    | bare hl => exact ⟨_, .bare hl⟩
    | @qualified p l hp hl =>
      cases hspace : ns.space? p with
      | some uri => exact ⟨_, .qualified hp hl hspace⟩
      | none =>
        obtain ⟨failure, hfailure⟩ := selectFrom_of_unbound f x hp hl hspace
        rw [hfailure] at h
        exact absurd h (by simp)

end XmlPaths

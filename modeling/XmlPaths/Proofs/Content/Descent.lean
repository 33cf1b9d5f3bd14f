import XmlPaths.Content.Descent
import XmlPaths.Proofs.Selection.LastNamed

/-!
# Descending is selecting with paths of children

Descending goes from a level of elements to the next one, for each name in turn; a path expression
is evaluated from a node and has its results in document order.  From one element both lead to the
same elements in the same order, if the namespace is not an asterisk, which stands for all of them
below the elements that are descended from.

* `Forest.childrenIn`, `Forest.below`   the elements that names lead to from a node;
* `Forest.descendFrom_eq`     descending leads to them, from each of the given nodes in turn;
* `childPath`, `selectFrom_childPath`   the path of the names, and what it selects;
* `Forest.below_eq_walk`      what its steps lead to;
* `descend_eq_selectFrom`     so both agree, and descending can be split at any name.
-/

namespace XmlPaths

open Alphabet

/-! ## the elements that names lead to -/

/-- the namespaces that one stands for in a descent -/
def SpaceTest.of (space : Option String) : SpaceTest :=
  if space = some "*" then .any else .exactly space

def Node.isOf (tag : Tag) (n : Node) : Bool := n.element?.any fun e => tag.admits e.name

namespace Forest

variable (f : Forest) (t : SpaceTest)

/-- the children with a local name in admitted namespaces -/
def childrenIn (l : String) (x : NodeId) : List NodeId :=
  (((f.node? x).elim [] Node.children).filter (·.isOf ⟨t, some l⟩)).map Node.id

/-- the elements that local names lead to from a node, one level of children for each of them -/
def below : List String → NodeId → List NodeId
  | [], x => [x]
  | l :: ls, x => (f.childrenIn t l x).flatMap (below ls)

end Forest

/-! ## universal forms of the names -/

/-- What the universal form of a name can hold as a namespace: none, or a text of markup that isn't
empty and has no closing brace. -/
def IsHeld (space : Option String) : Prop :=
  ∀ uri ∈ space, uri.toList ≠ [] ∧ '\x7d' ∉ uri.toList ∧ isMarkupText uri = true

section
variable {space : Option String} (hspace : IsHeld space) {l : String} (hl : isNcName l = true)

include hspace in
theorem IsHeld.universalIn_eq (l : String) : universalIn space l = Name.universal ⟨space, l⟩ := by
  cases space with
  | none => rfl
  | some uri =>
    have hempty : uri.isEmpty = false := by
      rw [Bool.eq_false_iff]
      intro h
      exact (hspace uri rfl).1 (String.toList_eq_nil_iff.2 (String.isEmpty_iff.1 h))
    rw [universalIn, hempty]
    rfl

include hl in
theorem head_ne_of_isNcName {d : Char} (hd : isNcNameStart d = false) (cs : List Char) :
    l.toList ≠ d :: cs := by
  intro h
  rw [isNcName, h, isNcNameChars, hd] at hl
  exact absurd hl (by simp)

include hspace hl

theorem IsHeld.ofUniversal?_universal :
    Name.ofUniversal? (Name.universal ⟨space, l⟩) = some ⟨space, l⟩ := by
  cases space with
  | none =>
    rw [Name.universal, Name.ofUniversal?, isMarkupText_of_isNcName hl, if_neg (by simp)]
    split
    · next h => exact absurd h (ne_empty_of_isNcName hl)
    · next h => exact absurd h (head_ne_of_isNcName hl (by decide) _)
    · rfl
  | some uri =>
    obtain ⟨hne, hbrace, htext⟩ := hspace uri rfl
    exact Name.ofUniversal?_universal hne hbrace htext hl

theorem IsHeld.universal_ne_asterisk : Name.universal ⟨space, l⟩ ≠ "*" := by
  intro h
  have hchars := congrArg String.toList h
  cases space with
  | none => exact head_ne_of_isNcName hl (d := '*') (by decide) [] hchars
  | some uri =>
    rw [Name.universal, String.toList_ofList, List.cons_append] at hchars
    exact absurd (List.cons.inj hchars).1 (by decide)

theorem IsHeld.tag_eq : Tag.ofUniversal? (universalIn space l) = some ⟨.of space, some l⟩ := by
  have hstar : l ≠ "*" := fun h => head_ne_of_isNcName hl (d := '*') (by decide) []
    (congrArg String.toList h)
  rw [hspace.universalIn_eq, Tag.ofUniversal?, if_neg (hspace.universal_ne_asterisk hl),
    hspace.ofUniversal?_universal hl, Option.map_some, if_neg hstar]
  rfl

end

/-- Names that differ have different universal forms, if their local parts are names of markup. -/
theorem Name.universal_inj {m m' : Name} (hm : m.isValid = true) (hm' : m'.isValid = true) :
    m.universal = m'.universal ↔ m = m' := by
  have hbrace : ∀ {l : String}, isNcName l = true → ∀ c ∈ l.toList, c ≠ '\x7d' := by
    rintro l hl c hc rfl
    rw [isNcName, Bool.and_eq_true] at hl
    have hchars := hl.1
    cases hcs : l.toList with
    | nil => exact ne_empty_of_isNcName (by rw [isNcName, hl.1, hl.2]; rfl) hcs
    | cons d ds =>
      rw [hcs, isNcNameChars, Bool.and_eq_true, List.all_eq_true] at hchars
      rw [hcs] at hc
      rcases List.mem_cons.1 hc with h | h
      · rw [← h] at hchars
        exact absurd hchars.1 (by decide)
      · exact absurd (hchars.2 _ h) (by decide)
  refine ⟨fun h => ?_, fun h => by rw [h]⟩
  obtain ⟨space, l⟩ := m
  obtain ⟨space', l'⟩ := m'
  have hchars := congrArg String.toList h
  cases space with
  | none =>
    cases space' with
    | none => exact congrArg (Name.mk none) h
    | some uri' =>
      rw [universal, universal, String.toList_ofList] at hchars
      exact absurd hchars (head_ne_of_isNcName hm (by decide) _)
  | some uri =>
    cases space' with
    | none =>
      rw [universal, universal, String.toList_ofList] at hchars
      exact absurd hchars.symm (head_ne_of_isNcName hm' (by decide) _)
    | some uri' =>
      rw [universal, universal, String.toList_ofList, String.toList_ofList] at hchars
      have hrest : uri.toList ++ '\x7d' :: l.toList = uri'.toList ++ '\x7d' :: l'.toList :=
        (List.cons.inj hchars).2
      obtain ⟨huri, -⟩ := append_cons_inj_of_last (p := (· = '\x7d')) hrest rfl rfl
        (hbrace hm) (hbrace hm')
      rw [huri, List.append_cancel_left_eq, List.cons.injEq] at hrest
      rw [String.toList_inj.1 huri, String.toList_inj.1 hrest.2]

/-! ## what descending leads to -/

namespace Forest

variable {f : Forest} {space : Option String}

theorem childrenOf_eq (hspace : IsHeld space) {l : String} (hl : isNcName l = true) (x : NodeId) :
    f.childrenOf (universalIn space l) x = .ok (f.childrenIn (.of space) l x) := by
  rw [childrenOf, hspace.tag_eq hl, childrenIn]
  dsimp only
  rw [← List.filterMap_eq_filter, List.map_filterMap]
  refine congrArg Except.ok (List.filterMap_congr fun c _ => ?_)
  cases hc : c.element? with
  | none => simp [Option.guard, Node.isOf, hc]
  | some e =>
    cases h : Tag.admits ⟨.of space, some l⟩ e.name <;> simp [Option.guard, Node.isOf, hc, h]

theorem childrenOfAll_eq (hspace : IsHeld space) {l : String} (hl : isNcName l = true)
    (xs : List NodeId) :
    f.childrenOfAll (universalIn space l) xs = .ok (xs.flatMap (f.childrenIn (.of space) l)) := by
  induction xs with
  | nil => rfl
  | cons x xs ih =>
    rw [childrenOfAll, childrenOf_eq hspace hl]
    dsimp only
    rw [ih, List.flatMap_cons]

/-- **Descending leads from each of the nodes in turn to the elements that the names lead to.** -/
theorem descendFrom_eq (hspace : IsHeld space) {names : List String}
    (hnames : ∀ l ∈ names, isNcName l = true) (xs : List NodeId) :
    f.descendFrom space xs names = .ok (xs.flatMap (f.below (.of space) names)) := by
  induction names generalizing xs with
  | nil =>
    rw [descendFrom]
    exact congrArg Except.ok (List.flatMap_singleton' xs).symm
  | cons l ls ih =>
    rw [descendFrom, childrenOfAll_eq hspace (hnames l List.mem_cons_self)]
    dsimp only
    rw [ih fun l' hl' => hnames l' (List.mem_cons_of_mem _ hl'), List.flatMap_assoc]
    rfl

/-! ## descending on -/

/-- The further names lead on from what the first ones led to, or neither leads anywhere. -/
theorem descendFrom_append (xs : List NodeId) (a b : List String) :
    f.descendFrom space xs (a ++ b) =
      (f.descendFrom space xs a).bind fun ys => f.descendFrom space ys b := by
  induction a generalizing xs with
  | nil => rfl
  | cons l a ih =>
    rw [List.cons_append, descendFrom, descendFrom]
    cases f.childrenOfAll (universalIn space l) xs with
    | error r => rfl
    | ok ys => exact ih ys

theorem descend_of_ne_nil {names : List String} (h : names ≠ []) (xs : List NodeId) :
    f.descend space xs names = f.descendFrom space xs names := by
  rw [descend, List.isEmpty_eq_false_iff.2 h, if_neg (by simp)]

theorem descend_append {a b : List String} (ha : a ≠ []) (hb : b ≠ []) (xs : List NodeId) :
    f.descend space xs (a ++ b) =
      (f.descend space xs a).bind fun ys => f.descend space ys b := by
  rw [descend_of_ne_nil (by simp [ha]), descend_of_ne_nil ha, descendFrom_append]
  simp only [descend_of_ne_nil hb]

theorem descendTree_append {a b : List String} (ha : a ≠ []) (hb : b ≠ []) (root : NodeId) :
    f.descendTree space root (a ++ b) =
      (f.descendTree space root a).bind fun ys => f.descend space ys b := by
  obtain ⟨l, a, rfl⟩ := List.exists_cons_of_ne_nil ha
  rw [List.cons_append, descendTree, descendTree, descendFrom_append]
  simp only [descend_of_ne_nil hb]

theorem descendFrom_nil (hspace : IsHeld space) {names : List String}
    (hnames : ∀ l ∈ names, isNcName l = true) : f.descendFrom space [] names = .ok [] :=
  descendFrom_eq hspace hnames []

/-- In a tree the first name has to be that of the root. -/
theorem descendTree_cons (hspace : IsHeld space) {l : String} {ls : List String}
    (hnames : ∀ l' ∈ l :: ls, isNcName l' = true) {root : NodeId} {e : Element}
    (he : (f.node? root).bind Node.element? = some e) (hvalid : e.name.isValid = true) :
    (e.name ≠ ⟨space, l⟩ → f.descendTree space root (l :: ls) = .ok []) ∧
    (e.name = ⟨space, l⟩ → f.descendTree space root (l :: ls) =
      if ls = [] then .ok [root] else f.descend space [root] ls) := by
  have hl : Name.isValid ⟨space, l⟩ = true := hnames l List.mem_cons_self
  have hnamed : (e.name.universal == universalIn space l) = decide (e.name = ⟨space, l⟩) := by
    rw [hspace.universalIn_eq, Bool.eq_iff_iff, beq_iff_eq, decide_eq_true_eq,
      Name.universal_inj hvalid hl]
  rw [descendTree, he, Option.any_some, hnamed]
  refine ⟨fun h => ?_, fun h => ?_⟩
  · rw [decide_eq_false h]
    exact descendFrom_nil hspace fun l' hl' => hnames l' (List.mem_cons_of_mem _ hl')
  · rw [decide_eq_true h]
    by_cases hls : ls = []
    · rw [if_pos hls, hls]
      rfl
    · rw [if_neg hls, descend_of_ne_nil hls]
      rfl

end Forest

/-! ## paths of children -/

/-- the path expression of the children of some names, of which each one is a step -/
def childPath (names : List String) : String :=
  String.ofList (joinWith ['/'] (names.map String.toList))

/-- The step asks for the children of a name and demands nothing else. -/
inductive Step.AsksFor (ns : Namespaces) (m : Name) : Step → Prop where
  | element {p : Option String} (hbind : ∀ q ∈ p, (ns.space? q).isSome = true)
      (hspace : p.bind ns.space? = m.space) : AsksFor ns m (.element ⟨p, m.localName, []⟩)

section
variable {ns : Namespaces} {space : Option String}

theorem Namespaces.Denotes.exists_step {text : String} {m : Name} (h : ns.Denotes text m) :
    ∃ s, XPath.names.SpellsStep (.element s) text.toList ∧ (Step.element s).AsksFor ns m := by
  have hdemands : XPath.names.SpellsDemands [] [] := .absent
  cases h with
  | bare hl =>
    have hname := SpellsName.bare (XPath.isName_of_isNcName hl)
    have hstep := SpellsStep.toElement hname hdemands
    rw [String.ofList_toList, List.append_nil] at hstep
    exact ⟨_, hstep, .element (m := ⟨none, _⟩) (by simp) rfl⟩
  | @qualified p l uri hp hl huri =>
    have hname := SpellsName.qualified (XPath.isName_of_isNcName hp) (XPath.isName_of_isNcName hl)
    have hstep := SpellsStep.toElement hname hdemands
    rw [String.ofList_toList, String.ofList_toList, List.append_nil] at hstep
    have htext : (p ++ ":" ++ l).toList = p.toList ++ ':' :: l.toList := by
      rw [String.toList_append, String.toList_append, List.append_assoc]
      rfl
    rw [htext]
    refine ⟨_, hstep, .element (m := ⟨some uri, l⟩) (fun q hq => ?_) ?_⟩
    · obtain rfl : p = q := by simpa using hq
      rw [huri]
      rfl
    · rw [Option.bind_some, huri]

/-- The path of some names is spelled with a step for each of them. -/
theorem exists_steps_of_denotes {texts names : List String}
    (h : List.Forall₂ (fun t l => ns.Denotes t ⟨space, l⟩) texts names) (hne : texts ≠ []) :
    ∃ steps, XPath.names.SpellsPath steps (joinWith ['/'] (texts.map String.toList)) ∧
      List.Forall₂ (fun s l => s.AsksFor ns ⟨space, l⟩) steps names := by
  induction h with
  | nil => exact absurd rfl hne
  | @cons t l texts names ht hrest ih =>
    obtain ⟨s, hs, hasks⟩ := ht.exists_step
    cases texts with
    | nil =>
      cases hrest
      exact ⟨[.element s], .last hs, .cons hasks .nil⟩
    | cons t' texts =>
      obtain ⟨steps, hpath, hall⟩ := ih (by simp)
      have hmore := SpellsPath.more hs blanks_nil blanks_nil hpath
      exact ⟨.element s :: steps, by simpa [joinWith] using hmore, .cons hasks hall⟩

theorem isMarkupText_childPath {texts names : List String}
    (h : List.Forall₂ (fun t l => ns.Denotes t ⟨space, l⟩) texts names) :
    isMarkupText (childPath texts) = true := by
  rw [isMarkupText, childPath, String.toList_ofList]
  induction h with
  | nil => rfl
  | @cons t l texts names ht _ ih =>
    have ht' : t.toList.all isMarkupChar = true := ht.isMarkupText
    cases texts with
    | nil => exact ht'
    | cons t' texts =>
      rw [List.map_cons, List.map_cons, joinWith_cons_cons, List.all_append, List.all_append, ht']
      exact ih

theorem bind_of_asksFor {steps : List Step} {names : List String}
    (h : List.Forall₂ (fun s l => s.AsksFor ns ⟨space, l⟩) steps names) : ns.Bind steps := by
  induction h with
  | nil => exact fun s hs => absurd hs (by simp)
  | cons hs _ ih =>
    intro s' hs' q hq
    rcases List.mem_cons.1 hs' with rfl | hs'
    · cases hs with
      | element hbind _ => exact hbind q hq
    · exact ih s' hs' q hq

/-- **The steps lead to the elements that are descended to.** -/
theorem Forest.below_eq_walk {f : Forest} (hf : f.Sound) {steps : List Step} {names : List String}
    (h : List.Forall₂ (fun s l => s.AsksFor ns ⟨space, l⟩) steps names) {n : Node}
    (hn : n ∈ f.nodes) :
    (f.below (.exactly space) names n.id).map Selected.node = n.walk ns steps := by
  induction h generalizing n with
  | nil => rfl
  | @cons s l steps names hs _ ih =>
    cases hs with
    | @element p hbind hspace =>
      have hfits : ∀ c : Node, c.isOf ⟨.exactly space, some l⟩ = c.fits ns ⟨p, l, []⟩ := by
        intro c
        rw [Node.fits, ChildStep.nameIn, hspace, List.all_nil, Bool.and_true, Node.isOf,
          Node.isNamed]
        cases c.element? with
        | none => rfl
        | some e =>
          obtain ⟨⟨space', l'⟩, attributes, text⟩ := e
          rw [Option.any_some, Option.any_some, Bool.eq_iff_iff]
          simp only [Tag.admits, SpaceTest.admits, Option.all_some, Bool.and_eq_true, beq_iff_eq,
            Name.mk.injEq]
          exact and_congr eq_comm eq_comm
      rw [Forest.below, Forest.childrenIn, hf.node?_of_mem hn, Option.elim_some, Node.walk,
        Node.childrenAt, List.flatMap_map, List.map_flatMap]
      simp only [hfits]
      refine List.flatMap_congr fun c hc => ih ?_
      exact Forest.mem_nodes_of_mem_children hn (List.mem_filter.1 hc).1

end

/-! ## the agreement -/

section
variable {ns : Namespaces} (hns : ns.refusal? = none) {space : Option String}
include hns

omit hns in
theorem Namespaces.Denotes.isValid {text : String} {m : Name} (h : ns.Denotes text m) :
    m.isValid = true := by
  cases h with
  | bare hl => exact hl
  | qualified _ hl _ => exact hl

/-- The namespaces of names are held by universal forms, if they have no closing brace. -/
theorem Namespaces.Denotes.isHeld {text l : String} (h : ns.Denotes text ⟨space, l⟩)
    (hbrace : ∀ uri ∈ space, '\x7d' ∉ uri.toList) : IsHeld space := by
  intro uri huri
  obtain ⟨hne, htext⟩ : uri ≠ "" ∧ XmlPaths.isMarkupText uri = true := by
    cases h with
    | bare _ => exact absurd huri (by simp)
    | @qualified p l uri' _ _ hspace =>
      obtain rfl : uri' = uri := by simpa using huri
      rw [Namespaces.space?] at hspace
      split at hspace
      · obtain rfl : xmlSpace = uri' := by simpa using hspace
        decide
      · exact accepted_of_value? hns hspace
  exact ⟨fun h => hne (String.toList_eq_nil_iff.1 h), hbrace uri huri, htext⟩

omit hns in
theorem isValid_of_denotes {texts names : List String}
    (h : List.Forall₂ (fun t l => ns.Denotes t ⟨space, l⟩) texts names) :
    ∀ l ∈ names, isNcName l = true := by
  induction h with
  | nil => exact fun l hl => absurd hl (by simp)
  | cons ht _ ih => exact List.forall_mem_cons.2 ⟨ht.isValid, ih⟩

variable {f : Forest} (hf : f.Sound) {texts : List String} {l : String} {ls : List String}
  (hnames : List.Forall₂ (fun t l => ns.Denotes t ⟨space, l⟩) texts (l :: ls))

include hf hnames in
theorem selectFrom_childPath {x : NodeId} {n : Node} (hx : f.node? x = some n) :
    selectFrom f x (childPath texts) ns =
      .ok ((f.below (.exactly space) (l :: ls) x).map .node) := by
  have hne : texts ≠ [] := by
    rintro rfl
    cases hnames
  obtain ⟨steps, hpath, hasks⟩ := exists_steps_of_denotes hnames hne
  have hspells : XPath.names.Spells steps (childPath texts).toList := by
    rw [childPath, String.toList_ofList]
    exact ⟨[], _, [], blanks_nil, hpath, blanks_nil, by simp⟩
  have hread : XPath.parse? (childPath texts) = some (stepsExpr .context steps) :=
    XPath.parseChars?_of_spells XPath.known_names hspells
  obtain ⟨hmem, rfl⟩ := Forest.mem_of_node? hx
  rw [selectFrom_of_steps hf hx hread (attributeLast_of_spellsPath hpath)
    (isMarkupText_childPath hnames) hns (bind_of_asksFor hasks), Forest.below_eq_walk hf hasks hmem]

include hf hnames in
/-- **Descending agrees with the selection of the path of the names**, which may be spelled with any
prefixes that are bound to the namespace, from every element that there is.  From several elements
what each of them leads to is joined; in a tree the first name has to be the root's.  A descent can
be made in two parts, whatever the names and the namespace are.

The namespace must not be an asterisk: below the elements that are descended from it stands for all
namespaces and for none, while in an expression, and for the root of a tree, it stands for itself. -/
theorem descend_eq_selectFrom (hbrace : ∀ uri ∈ space, '\x7d' ∉ uri.toList) :
    (∀ x n, f.node? x = some n → ∃ found, f.descend space [x] (l :: ls) = .ok found ∧
      (space ≠ some "*" →
        selectFrom f x (childPath texts) ns = .ok (found.map .node)) ∧
      (space = some "*" → found = f.below .any (l :: ls) x)) ∧
    (∀ xs, ∃ founds,
      List.Forall₂ (fun x found => f.descend space [x] (l :: ls) = .ok found) xs founds ∧
      f.descend space xs (l :: ls) = .ok founds.flatten) ∧
    (∀ root e, (f.node? root).bind Node.element? = some e → e.name.isValid = true →
      (e.name ≠ ⟨space, l⟩ → f.descendTree space root (l :: ls) = .ok []) ∧
      (e.name = ⟨space, l⟩ → f.descendTree space root (l :: ls) =
        if ls = [] then .ok [root] else f.descend space [root] ls)) ∧
    ∀ a b, a ≠ [] → b ≠ [] →
      (∀ xs, f.descend space xs (a ++ b) =
        (f.descend space xs a).bind fun ys => f.descend space ys b) ∧
      ∀ root, f.descendTree space root (a ++ b) =
        (f.descendTree space root a).bind fun ys => f.descend space ys b := by
  have hvalid := isValid_of_denotes hnames
  have hheld : IsHeld space := by
    cases hnames with
    | cons h _ => exact h.isHeld hns hbrace
  have hsome : ∀ xs, f.descend space xs (l :: ls) =
      .ok (xs.flatMap (f.below (.of space) (l :: ls))) :=
    Forest.descendFrom_eq hheld hvalid
  have hone : ∀ x, f.descend space [x] (l :: ls) = .ok (f.below (.of space) (l :: ls) x) := by
    intro x
    rw [hsome, List.flatMap_singleton]
  refine ⟨fun x n hx => ⟨_, hone x, fun hstar => ?_, fun hstar => ?_⟩, fun xs => ?_,
    fun root e => Forest.descendTree_cons hheld hvalid, fun a b ha hb =>
      ⟨Forest.descend_append ha hb, Forest.descendTree_append ha hb⟩⟩
  · rw [SpaceTest.of, if_neg hstar]
    exact selectFrom_childPath hns hf hnames hx
  · rw [SpaceTest.of, if_pos hstar]
  · refine ⟨xs.map (f.below (.of space) (l :: ls)), ?_, hsome xs⟩
    exact List.forall₂_map_right_iff.2 (List.forall₂_same.2 fun x _ => hone x)

end

/-- a document with names of one namespace on all levels, and some of others between them -/
def nestedNames : Forest :=
  ⟨[⟨0, true, .element 0 ⟨⟨some "u", "Root"⟩, [], none⟩
    [.element 1 ⟨⟨some "u", "Level"⟩, [], some " "⟩
        [.element 2 ⟨⟨some "u", "Two"⟩, [], none⟩ [] none,
          .element 3 ⟨⟨none, "Two"⟩, [], none⟩ [] (some "tail")] none,
      .leaf 4 (.comment "Level") none,
      .element 5 ⟨⟨some "u", "Two"⟩, [], none⟩ [] none,
      .element 6 ⟨⟨some "u", "Level"⟩, [], none⟩
        [.element 7 ⟨⟨some "u", "Two"⟩, [], none⟩ [] none] none] none⟩], 8⟩

theorem sound_nestedNames : nestedNames.Sound where
  nodup := by decide
  lt_next := by decide
  attributes := by decide

/-- Two prefixes of one namespace, from the root and from the tree. -/
theorem descend_eq_selectFrom_nestedNames :
    nestedNames.descend (some "u") [0] ["Level", "Two"] = .ok [2, 7] ∧
    selectFrom nestedNames 0 "p:Level/q:Two" [("p", "u"), ("q", "u")] = .ok [.node 2, .node 7] ∧
    nestedNames.descendTree (some "u") 0 ["Level", "Two"] = .ok [] := by
  have hlevel : Namespaces.Denotes [("p", "u"), ("q", "u")] "p:Level" ⟨some "u", "Level"⟩ :=
    .qualified (p := "p") (l := "Level") (by decide) (by decide) rfl
  have htwo : Namespaces.Denotes [("p", "u"), ("q", "u")] "q:Two" ⟨some "u", "Two"⟩ :=
    .qualified (p := "q") (l := "Two") (by decide) (by decide) rfl
  have hbrace : ∀ uri ∈ some "u", '\x7d' ∉ uri.toList := by decide
  obtain ⟨helement, -, htree, -⟩ := descend_eq_selectFrom (by decide) sound_nestedNames
    (.cons hlevel (.cons htwo .nil)) hbrace
  obtain ⟨found, hfound, hselect, -⟩ := helement 0 _ rfl
  have hdescend : nestedNames.descend (some "u") [0] ["Level", "Two"] = .ok [2, 7] := by decide
  rw [hdescend, Except.ok.injEq] at hfound
  rw [← hfound] at hselect
  exact ⟨hdescend, hselect (by decide), (htree 0 _ rfl (by decide)).1 (by decide)⟩

/-- a document with one local name in two namespaces, of which one is an asterisk -/
def asteriskSpace : Forest :=
  ⟨[⟨0, true, .element 0 ⟨⟨none, "r"⟩, [], none⟩
    [.element 1 ⟨⟨some "*", "a"⟩, [], none⟩ [] none,
      .element 2 ⟨⟨some "u", "a"⟩, [], none⟩ [] none] none⟩], 3⟩

theorem sound_asteriskSpace : asteriskSpace.Sound where
  nodup := by decide
  lt_next := by decide
  attributes := by decide

/-- An asterisk as namespace leads to elements of other namespaces. -/
theorem not_descend_eq_selectFrom_asterisk :
    ¬ ∀ (f : Forest) (x : NodeId) (n : Node) (ns : Namespaces) (space : Option String)
      (texts names : List String), f.Sound → f.node? x = some n → ns.refusal? = none →
      (∀ uri ∈ space, uri ≠ "" ∧ '\x7d' ∉ uri.toList) → names ≠ [] →
      List.Forall₂ (fun t l => ns.Denotes t ⟨space, l⟩) texts names →
      ∃ found, f.descend space [x] names = .ok found ∧
        selectFrom f x (childPath texts) ns = .ok (found.map .node) := by
  intro h
  have hname : Namespaces.Denotes [("p", "*")] "p:a" ⟨some "*", "a"⟩ :=
    .qualified (p := "p") (l := "a") (by decide) (by decide) rfl
  have hnames : List.Forall₂ (fun t l => Namespaces.Denotes [("p", "*")] t ⟨some "*", l⟩)
      ["p:a"] ["a"] := .cons hname .nil
  obtain ⟨found, hfound, hselect⟩ := h asteriskSpace 0 _ [("p", "*")] (some "*") ["p:a"] ["a"]
    sound_asteriskSpace rfl (by decide) (by decide) (by simp) hnames
  have hdescend : asteriskSpace.descend (some "*") [0] ["a"] = .ok [1, 2] := by decide
  rw [hdescend, Except.ok.injEq] at hfound
  rw [selectFrom_childPath (by decide) sound_asteriskSpace hnames rfl, ← hfound] at hselect
  exact absurd hselect (by decide)

end XmlPaths

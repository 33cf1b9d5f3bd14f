import XmlPaths.Build.Resolve
import XmlPaths.Proofs.Build.Extension
import XmlPaths.Proofs.Tree.Naming

/-!
# Making what one step describes

What is made for a step of a plain expression is the extension of the node that it is made for, if
the prefixes stand for references and the step doesn't contradict itself.

* `Namespaces.Cover`    prefixes that stand for references;
* `Step.Feasible`       steps whose names and values are accepted;
* `feasible_of_parse`   so are those of steps of a plain expression;
* `addStep_of_feasible`, `addStep_of_hasAttribute`   what is made, and what is there already.
-/

namespace XmlPaths

open Alphabet

/-- The prefixes of the steps stand for references that can name the namespace of an element.  One
with a closing brace can't: it's cut off there in a universal form, and its end is refused as part
of the name.  If `xml` is one of the prefixes, it has to be mapped as well, to its own namespace:
it's bound anyway when something is looked up, but not when something is made. -/
def Namespaces.Cover (ns : Namespaces) (steps : List Step) : Prop :=
  ∀ s ∈ steps, ∀ q ∈ s.nsPrefix?, ∃ uri ∈ ns.value? q, ns.space? q = some uri ∧
    Uri.isUriReference uri = true ∧ '\x7d' ∉ uri.toList

theorem Namespaces.Cover.bind {ns : Namespaces} {steps : List Step} (h : ns.Cover steps) :
    ns.Bind steps := by
  intro s hs q hq
  obtain ⟨uri, -, hspace, -⟩ := h s hs q hq
  rw [hspace]
  rfl

theorem Namespaces.Cover.of_mem {ns : Namespaces} {steps : List Step} (h : ns.Cover steps)
    {s : Step} (hs : s ∈ steps) : ns.Cover [s] := by
  intro s' hs'
  rw [List.mem_singleton.1 hs']
  exact h s hs

/-- the names and values of a step are those of elements and attributes -/
structure ChildStep.Feasible (s : ChildStep) (ns : Namespaces) : Prop where
  name : s.name ns = .ok (s.nameIn ns)
  localName : isNcName s.localName = true
  consistent : Consistent s.comparisons
  space : Uri.isUriReference ((s.nameIn ns).space.getD "") = true
  names : ∀ k ∈ s.comparisons, isNcName k.name = true
  values : ∀ k ∈ s.comparisons, ∀ v ∈ k.value, isMarkupText v = true

def Step.Feasible (ns : Namespaces) : Step → Prop
  | .element s => s.Feasible ns
  | .attribute a => isNcName a = true

/-! ## plain steps -/

/-- markup admits the names and the values of a step -/
def Step.Admitted : Step → Prop
  | .element s => isNcName s.localName = true ∧
      ∀ k ∈ s.comparisons, isNcName k.name = true ∧ ∀ v ∈ k.value, isMarkupText v = true
  | .attribute a => isNcName a = true

section
variable {ks : List Comparison} {t : List Char}

theorem admitted_of_spellsComparison {k : Comparison}
    (h : (full.restrict isPlain isMarkupChar).SpellsComparison k t) :
    isNcName k.name = true ∧ ∀ v ∈ k.value, isMarkupText v = true := by
  cases h with
  | present hn => exact ⟨isNcName_of_isName hn, fun v hv => absurd hv (by simp)⟩
  | demanded hn hu hw hl =>
    refine ⟨isNcName_of_isName hn, fun v hv => ?_⟩
    cases hl with
    | intro hq hv' hc =>
      rw [← Option.some.inj hv, isMarkupText, String.toList_ofList, List.all_eq_true]
      exact hc

theorem admitted_of_spellsDemands
    (h : (full.restrict isPlain isMarkupChar).SpellsDemands ks t) :
    ∀ k ∈ ks, isNcName k.name = true ∧ ∀ v ∈ k.value, isMarkupText v = true := by
  have hjoints : ∀ {ks t}, (full.restrict isPlain isMarkupChar).SpellsJoints ks t →
      ∀ k ∈ ks, isNcName k.name = true ∧ ∀ v ∈ k.value, isMarkupText v = true := by
    intro ks t h
    induction h with
    | nil => exact fun k hk => absurd hk (by simp)
    | cons _ _ _ _ hk _ ih =>
      intro k' hk'
      rcases List.mem_cons.1 hk' with rfl | hk'
      · exact admitted_of_spellsComparison hk
      · exact ih k' hk'
  cases h with
  | absent => exact fun k hk => absurd hk (by simp)
  | clause hu ht =>
    cases ht with
    | intro hu' hk hks hw =>
      intro k' hk'
      rcases List.mem_cons.1 hk' with rfl | hk'
      · exact admitted_of_spellsComparison hk
      · exact hjoints hks k' hk'

theorem admitted_of_spellsStep {s : Step}
    (h : (full.restrict isPlain isMarkupChar).SpellsStep s t) : s.Admitted := by
  cases h with
  | toAttribute hn => exact isNcName_of_isName hn
  | toElement hq hd =>
    refine ⟨?_, admitted_of_spellsDemands hd⟩
    cases hq with
    | bare hn => exact isNcName_of_isName hn
    | qualified hp hn => exact isNcName_of_isName hn

theorem admitted_of_spellsPath {steps : List Step}
    (h : (full.restrict isPlain isMarkupChar).SpellsPath steps t) : ∀ s ∈ steps, s.Admitted := by
  induction h with
  | last hs =>
    intro s' hs'
    rw [List.mem_singleton.1 hs']
    exact admitted_of_spellsStep hs
  | more hs _ _ _ ih =>
    intro s' hs'
    rcases List.mem_cons.1 hs' with rfl | hs'
    · exact admitted_of_spellsStep hs
    · exact ih s' hs'

end

theorem admitted_of_parse {e : String} (he : Plain e) {p : Path} (hp : Path.parse e = .ok p) :
    ∀ s ∈ p.steps, s.Admitted := by
  obtain ⟨u, t, w, -, ht, -, -⟩ := spells_of_parse he hp
  exact admitted_of_spellsPath ht

/-! ## steps are feasible -/

/-- What comparisons ask for is accepted if their names and values are. -/
theorem elementRefusal?_asked {n : Name} (hvalid : n.isValid = true)
    (hspace : Uri.isUriReference (n.space.getD "") = true) {ks : List Comparison}
    (hks : ∀ k ∈ ks, isNcName k.name = true ∧ ∀ v ∈ k.value, isMarkupText v = true) :
    elementRefusal? n (asked ks) = none := by
  have hnames : (asked ks).any (fun e => !isNcName e.1) = false := by
    rw [List.any_eq_false]
    intro e he
    obtain ⟨k, hk, hname⟩ := name_of_mem_asked he
    rw [← hname, (hks k hk).1]
    simp
  have hvalues : (asked ks).any (fun e => !isMarkupText e.2) = false := by
    rw [List.any_eq_false]
    intro e he
    rcases value_of_mem_asked he with hempty | ⟨k, hk, hv⟩
    · rw [hempty]
      decide
    · rw [(hks k hk).2 e.2 hv]
      simp
  rw [elementRefusal?, hvalid, hspace, hnames, hvalues]
  rfl

section
variable {ns : Namespaces} (hns : ns.refusal? = none)
include hns

theorem ChildStep.name_eq {s : ChildStep} (hs : isNcName s.localName = true)
    (hcover : ns.Cover [.element s]) :
    s.name ns = .ok (s.nameIn ns) ∧
      Uri.isUriReference ((s.nameIn ns).space.getD "") = true := by
  constructor
  · rw [name, nameIn]
    cases hq : s.nsPrefix with
    | none =>
      dsimp only
      rw [if_pos hs]
      rfl
    | some q =>
      obtain ⟨uri, hvalue, hspace, href, hbrace⟩ := hcover _ List.mem_cons_self q hq
      obtain ⟨hne, htext⟩ := Namespaces.accepted_of_value? hns hvalue
      have hempty : uri.isEmpty = false := by
        rw [Bool.eq_false_iff]
        intro h
        exact hne (String.isEmpty_iff.1 h)
      dsimp only
      rw [hvalue]
      dsimp only
      rw [hempty, if_neg (by simp), Name.inSpace?_of_isUriReference hne href hbrace htext hs,
        Option.bind_some, hspace]
  · rw [nameIn]
    cases hq : s.nsPrefix with
    | none => exact Uri.isUriReference_empty
    | some q =>
      obtain ⟨uri, -, hspace, href, -⟩ := hcover _ List.mem_cons_self q hq
      rw [Option.bind_some, hspace]
      exact href

theorem Step.feasible {s : Step} (hs : s.Admitted) (hcover : ns.Cover [s]) (hks : s.Consistent) :
    s.Feasible ns := by
  cases s with
  | «attribute» a => exact hs
  | element s =>
    obtain ⟨hname, hspace⟩ := ChildStep.name_eq hns hs.1 hcover
    exact ⟨hname, hs.1, hks, hspace, fun k hk => (hs.2 k hk).1, fun k hk => (hs.2 k hk).2⟩

/-- Steps of a plain expression are feasible if their prefixes stand for references and no step
contradicts itself. -/
theorem feasible_of_parse {e : String} (he : Plain e) {p : Path} (hp : Path.parse e = .ok p)
    {steps : List Step} (hsteps : steps ⊆ p.steps) (hcover : ns.Cover steps)
    (hks : ∀ s ∈ p.steps, s.Consistent) : ∀ s ∈ steps, s.Feasible ns := fun s hs =>
  Step.feasible hns (admitted_of_parse he hp s (hsteps hs)) (hcover.of_mem hs) (hks s (hsteps hs))

end

/-- The step of `xml:a` doesn't contradict itself, and its prefix is all that isn't mapped. -/
theorem exists_parse_xml : ∃ p, Path.parse "xml:a" = .ok p ∧
    p.steps = [.element ⟨some "xml", "a", []⟩] ∧ (∀ s ∈ p.steps, s.Consistent) ∧
    Namespaces.Cover []
      (p.steps.filter fun s => s.nsPrefix? != some "xml" && s.nsPrefix? != some "xmlns") := by
  obtain ⟨p, hp, hsteps⟩ : ∃ p, Path.parse "xml:a" = .ok p ∧
      p.steps = [.element ⟨some "xml", "a", []⟩] := by
    refine exists_ok_of_toOption_map ?_
    decide +kernel
  refine ⟨p, hp, hsteps, ?_, ?_⟩
  · rw [hsteps]
    decide
  · rw [hsteps]
    unfold Namespaces.Cover
    decide

/-! ## making -/

section
variable {ns : Namespaces}

theorem ChildStep.blueprint_of_feasible {s : ChildStep} (hs : s.Feasible ns) (f : Forest) :
    s.blueprint f ns = .done f (s.nameIn ns, s.attributes) := by
  have hd := ofComparisons_of_consistent hs.consistent
  have hconflicts : s.conflicts = [] := by
    rw [conflicts, hd.conflicts]
    rfl
  have hrefusal : elementRefusal? (s.nameIn ns) (Derivation.ofComparisons s.comparisons).attributes =
      none := by
    rw [(recorded_ofComparisons _).attributes]
    exact elementRefusal?_asked (n := s.nameIn ns) hs.localName hs.space fun k hk =>
      ⟨hs.names k hk, hs.values k hk⟩
  rw [blueprint, hs.name]
  dsimp only
  rw [hrefusal, hconflicts, hd.attributes, List.map_map]
  rfl

variable {f : Forest} (hf : f.Sound) {x : NodeId} {n : Node} (hx : f.node? x = some n)
include hf hx

/-- **What is made for a step** is what the node is extended with. -/
theorem addStep_of_feasible (hn : n.isElement = true) {s : Step} (hs : s.Feasible ns)
    (hnew : ∀ a, s = .attribute a → n.hasAttribute a = false) :
    addStep f (.node x) s ns none = .done (f.extend ns x [s]) (lastMade f.next x [s]) := by
  cases s with
  | element s =>
    have hleaf : f.isLeaf x = false := by
      rw [Forest.isLeaf, hx, Option.any_some, hn]
      rfl
    have hplace : Forest.Place.refusal? f (.last x) = none := by
      rw [Forest.Place.refusal?, hleaf, if_neg (by simp)]
    rw [addStep, addElement, ChildStep.blueprint_of_feasible hs, Outcome.andThen_done]
    dsimp only [placeOf]
    rw [hplace]
    rfl
  | «attribute» a =>
    have hfalse := hnew a rfl
    cases he : n.element? with
    | none => exact absurd hn (by simp [Node.isElement, he])
    | some e =>
      have hnone : (e.attribute? ⟨none, a⟩).isSome = false := by
        rwa [Node.hasAttribute, he, Option.any_some] at hfalse
      have hname : isNcName a = true := hs
      have hset : f.setAttribute x ⟨none, a⟩ "" = f.extend ns x [.attribute a] := by
        refine Forest.grow_congr hf hx ?_
        rw [Node.extend, hfalse, if_neg (by simp)]
      rw [addStep, addAttribute, hx, Option.bind_some, he]
      dsimp only
      rw [hnone, if_neg (by simp), if_pos hname, hset]
      rfl

omit hf in
theorem addStep_of_hasAttribute {e : Element} (he : n.element? = some e) {a : String}
    (ha : n.hasAttribute a = true) :
    addStep f (.node x) (.attribute a) ns none = .fail f (.attributeExists e.name a) := by
  have hsome : (e.attribute? ⟨none, a⟩).isSome = true := by
    rwa [Node.hasAttribute, he, Option.any_some] at ha
  rw [addStep, addAttribute, hx, Option.bind_some, he]
  dsimp only
  rw [hsome, if_pos rfl]
  rfl

end

end XmlPaths

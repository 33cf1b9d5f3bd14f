import XmlPaths.Proofs.Build.Growth
import XmlPaths.Proofs.Path.Contents
import XmlPaths.Proofs.Tree.Naming

/-!
# Why something is refused

Documents refuse values: characters that markup doesn't admit, names, and namespaces.  Whatever a
selection or a new node is refused for can be told from the bindings and from the characters of the
expression.

* `Flawed`                        what is wrong when something is refused;
* `Failure.Justified`             failures that are reported, or refusals for such a reason;
* `selectFrom_error`              why a selection fails;
* `ChildStep.name_cases`          what becomes of the name of a step;
* `flawed_of_elementRefusal?`     why a new element is refused.
-/

namespace XmlPaths

open Alphabet

/-! ## flaws -/

/-- A reference that can be put into a universal name, and taken out again. -/
def Uri.NamesSpace (uri : String) : Prop :=
  isUriReference uri = true ∧ isMarkupText uri = true ∧ '\x7d' ∉ uri.toList

/-- What is wrong about the bindings or about the characters of the expression when the documents
refuse something: a binding, a text, a name or a namespace. -/
inductive Flawed (ns : Namespaces) (e : String) : Refusal → Prop where
  | emptySpace {p : String} (h : (p, "") ∈ ns) : Flawed ns e .emptyNamespace
  | binding {p uri : String} (h : (p, uri) ∈ ns)
      (htext : isMarkupText p = false ∨ isMarkupText uri = false) : Flawed ns e .illegalText
  | text (h : isMarkupText e = false) : Flawed ns e .illegalText
  | name (h : oghamSpace ∈ e.toList) : Flawed ns e .invalidName
  | nameInSpace {p uri : String} (h : (p, uri) ∈ ns) (huri : ¬ Uri.NamesSpace uri) :
      Flawed ns e .invalidName
  | space {p uri : String} (h : (p, uri) ∈ ns) (huri : ¬ Uri.NamesSpace uri) :
      Flawed ns e .invalidNamespace

/-- Whatever is refused, it is for a value or for its type. -/
theorem Flawed.kind {ns : Namespaces} {e : String} {r : Refusal} (h : Flawed ns e r) :
    r.kind = .badValue ∨ r.kind = .badType := by
  cases h with
  | emptySpace => exact .inr rfl
  | binding | text | name | nameInSpace | space => exact .inl rfl

theorem Flawed.mono {ns ns' : Namespaces} (hns : ns ⊆ ns') {e : String} {r : Refusal}
    (h : Flawed ns e r) : Flawed ns' e r := by
  cases h with
  | emptySpace h => exact .emptySpace (hns h)
  | binding h htext => exact .binding (hns h) htext
  | text h => exact .text h
  | name h => exact .name h
  | nameInSpace h huri => exact .nameInSpace (hns h) huri
  | space h huri => exact .space (hns h) huri

theorem flawed_of_refusal? {ns : Namespaces} {r : Refusal} (h : ns.refusal? = some r)
    (e : String) : Flawed ns e r := by
  induction ns with
  | nil => exact absurd h (by simp [Namespaces.refusal?])
  | cons b ns ih =>
    obtain ⟨p, uri⟩ := b
    rw [Namespaces.refusal?] at h
    split at h
    · next hempty =>
      rw [← Option.some.inj h]
      exact .emptySpace (p := p) (by rw [String.isEmpty_iff.1 hempty]; exact List.mem_cons_self)
    · split at h
      · next htext =>
        rw [← Option.some.inj h]
        exact .binding List.mem_cons_self (by simpa using htext)
      · exact (ih h).mono (List.subset_cons_self _ ns)

/-- A failure is justified unless the documents refuse something that nothing is wrong about. -/
def Failure.Justified (ns : Namespaces) (e : String) (failure : Failure) : Prop :=
  ∀ r, failure = .refused r → Flawed ns e r

theorem Flawed.justified {ns : Namespaces} {e : String} {r : Refusal} (h : Flawed ns e r) :
    (Failure.refused r).Justified ns e := by
  intro r' hr'
  rw [← Failure.refused.inj hr']
  exact h

theorem justified_of_ne_refused {ns : Namespaces} {e : String} {failure : Failure}
    (h : ∀ r, failure ≠ .refused r) : failure.Justified ns e :=
  fun r hr => absurd hr (h r)

/-! ## selections -/

/-- A selection fails for one of the bindings, for the characters of the expression, or in the
evaluation. -/
theorem selectFrom_error {f : Forest} {x : NodeId} {c : String} {ns : Namespaces}
    {failure : Failure} (h : selectFrom f x c ns = .error failure) :
    (∃ r, ns.refusal? = some r ∧ failure = .refused r) ∨
    (ns.refusal? = none ∧ isMarkupText c = false ∧ failure = .refused .illegalText) ∨
    failure = .notEvaluated c ∨ failure = .noNodeSet c := by
  have herror : evaluateNodes f x c ns = .error failure := by
    rw [selectFrom] at h
    cases hnodes : evaluateNodes f x c ns with
    | error failure' =>
      rw [hnodes] at h
      exact congrArg _ (Except.error.inj h)
    | ok rs =>
      rw [hnodes] at h
      exact absurd h (by simp [Except.map])
  rw [evaluateNodes] at herror
  split at herror
  · next r hr => exact .inl ⟨r, hr, (Except.error.inj herror).symm⟩
  · next hnone =>
    split at herror
    · next htext => exact .inr (.inl ⟨hnone, by simpa using htext, (Except.error.inj herror).symm⟩)
    · split at herror
      · exact .inr (.inr (.inl (Except.error.inj herror).symm))
      · split at herror
        · exact .inr (.inr (.inl (Except.error.inj herror).symm))
        · exact absurd herror (by simp)
        · exact .inr (.inr (.inr (Except.error.inj herror).symm))

theorem selectFrom_of_illegalText {ns : Namespaces} (hns : ns.refusal? = none) {c : String}
    (hc : isMarkupText c = false) (f : Forest) (x : NodeId) :
    selectFrom f x c ns = .error (.refused .illegalText) := by
  rw [selectFrom, evaluateNodes, hns]
  dsimp only
  rw [hc]
  rfl

/-- A failure of a selection with a beginning of the expression. -/
theorem justified_of_selectFrom {f : Forest} {x : NodeId} {c e : String} {ns : Namespaces}
    {failure : Failure} (hc : ∃ z, e.toList = c.toList ++ z)
    (h : selectFrom f x c ns = .error failure) : failure.Justified ns e := by
  obtain ⟨z, hz⟩ := hc
  rcases selectFrom_error h with ⟨r, hr, rfl⟩ | ⟨-, htext, rfl⟩ | rfl | rfl
  · exact (flawed_of_refusal? hr e).justified
  · refine (Flawed.text ?_).justified
    rw [isMarkupText, hz, List.all_append, ← isMarkupText, htext, Bool.false_and]
  · exact justified_of_ne_refused (by simp)
  · exact justified_of_ne_refused (by simp)

/-! ## names, attributes and values -/

theorem oghamSpace_mem_of_name {e n : String} (hn : full.IsName n.toList)
    (hdrawn : n.toList ⊆ e.toList) (h : isNcName n = false) : oghamSpace ∈ e.toList := by
  by_contra hog
  have hname := isNcName_of_not_mem hn fun hmem => hog (hdrawn hmem)
  rw [String.ofList_toList, h] at hname
  exact absurd hname (by simp)

theorem Entries.mem_of_value? {es : Entries} {n v : String} (h : es.value? n = some v) :
    (n, v) ∈ es := by
  obtain ⟨before, after, hes, -⟩ := List.lookup_eq_some_iff.1 h
  rw [hes]
  exact List.mem_append_right _ List.mem_cons_self

/-- The name of a step is found out, unless its prefix is not defined, it is no name of markup or the
prefix stands for something that can name no namespace. -/
theorem ChildStep.name_cases (s : ChildStep) (ns : Namespaces) :
    (∃ p, s.name ns = .error (.undefinedPrefix p s)) ∨
    (s.name ns = .error (.refused .invalidName) ∧
      (isNcName s.localName = false ∨ ∃ p uri, (p, uri) ∈ ns ∧ ¬ Uri.NamesSpace uri)) ∨
    ∃ n, s.name ns = .ok n ∧
      (n.isValid = true ∧ Uri.isUriReference (n.space.getD "") = true ∨
        ∃ p uri, (p, uri) ∈ ns ∧ ¬ Uri.NamesSpace uri) := by
  rw [name]
  cases s.nsPrefix with
  | none =>
    dsimp only
    cases hlocal : isNcName s.localName with
    | true => exact .inr (.inr ⟨_, rfl, .inl ⟨hlocal, Uri.isUriReference_empty⟩⟩)
    | false => exact .inr (.inl ⟨rfl, .inl rfl⟩)
  | some p =>
    dsimp only
    cases huri : ns.value? p with
    | none => exact .inl ⟨p, rfl⟩
    | some uri =>
      dsimp only
      by_cases hempty : uri.isEmpty = true
      · rw [if_pos hempty]
        exact .inl ⟨p, rfl⟩
      rw [if_neg hempty]
      by_cases hspace : Uri.NamesSpace uri
      · obtain ⟨href, htext, hbrace⟩ := id hspace
        have hne : uri ≠ "" := fun heq => hempty (by rw [heq]; rfl)
        cases hlocal : isNcName s.localName with
        | true =>
          rw [Name.inSpace?_of_isUriReference hne href hbrace htext hlocal]
          exact .inr (.inr ⟨_, rfl, .inl ⟨hlocal, href⟩⟩)
        | false =>
          rw [Name.inSpace?, hlocal, Bool.and_false]
          exact .inr (.inl ⟨rfl, .inl rfl⟩)
      · have hflaw : ∃ p uri, (p, uri) ∈ ns ∧ ¬ Uri.NamesSpace uri :=
          ⟨p, uri, Entries.mem_of_value? huri, hspace⟩
        cases Name.inSpace? uri s.localName with
        | none => exact .inr (.inl ⟨rfl, .inr hflaw⟩)
        | some n => exact .inr (.inr ⟨n, rfl, .inr hflaw⟩)

/-- A name that is found out but is none of an element comes from such a prefix. -/
theorem exists_binding_of_name {s : ChildStep} {ns : Namespaces} {n : Name}
    (hname : s.name ns = .ok n)
    (h : n.isValid = false ∨ Uri.isUriReference (n.space.getD "") = false) :
    ∃ p uri, (p, uri) ∈ ns ∧ ¬ Uri.NamesSpace uri := by
  obtain ⟨p, hfail⟩ | ⟨hfail, -⟩ | ⟨n', hok, hcase⟩ := s.name_cases ns
  · exact absurd (hname.symm.trans hfail) (by simp)
  · exact absurd (hname.symm.trans hfail) (by simp)
  · obtain rfl := Except.ok.inj (hname.symm.trans hok)
    rcases hcase with ⟨hvalid, href⟩ | hbinding
    · rcases h with h | h
      · exact absurd (hvalid.symm.trans h) (by simp)
      · exact absurd (href.symm.trans h) (by simp)
    · exact hbinding

/-- A step that was read from the expression: its names are names, and they and its values are made
of characters of the expression. -/
structure Step.ReadFrom (e : String) (s : Step) : Prop where
  writable : s.Writable
  drawn : s.DrawnFrom e.toList

theorem readFrom_of_parse {e : String} {p : Path} (hp : Path.parse e = .ok p) :
    ∀ s ∈ p.steps, s.ReadFrom e := fun s hs =>
  ⟨(writable_of_readSegments (readSegments_of_parse hp).2.1).writable s hs,
    drawnFrom_of_parse hp s hs⟩

section
variable {ns : Namespaces} {e : String} {s : ChildStep} (hs : (Step.element s).ReadFrom e)
include hs

theorem justified_of_name {failure : Failure} (h : s.name ns = .error failure) :
    failure.Justified ns e := by
  obtain ⟨p, hname⟩ | ⟨hname, hflaw⟩ | ⟨n, hname, -⟩ := s.name_cases ns
  · rw [← Except.error.inj (hname.symm.trans h)]
    exact justified_of_ne_refused (by simp)
  · rw [← Except.error.inj (hname.symm.trans h)]
    rcases hflaw with hlocal | ⟨p, uri, hmem, huri⟩
    · refine (Flawed.name ?_).justified
      exact oghamSpace_mem_of_name hs.writable.localName hs.drawn.localName hlocal
    · exact (Flawed.nameInSpace hmem huri).justified
  · exact absurd (hname.symm.trans h) (by simp)

theorem flawed_of_elementRefusal? {n : Name} (hname : s.name ns = .ok n) {r : Refusal}
    (h : elementRefusal? n s.derivedEntries = some r) : Flawed ns e r := by
  rw [s.derivedEntries_eq, elementRefusal?] at h
  split at h
  · next hvalid =>
    rw [← Option.some.inj h]
    obtain ⟨p, uri, hmem, huri⟩ := exists_binding_of_name hname (.inl (by simpa using hvalid))
    exact .nameInSpace hmem huri
  split at h
  · next hspace =>
    rw [← Option.some.inj h]
    obtain ⟨p, uri, hmem, huri⟩ := exists_binding_of_name hname (.inr (by simpa using hspace))
    exact .space hmem huri
  split at h
  · next hany =>
    obtain ⟨b, hb, hnot⟩ := List.any_eq_true.1 hany
    obtain ⟨k, hk, hkb⟩ := name_of_mem_asked hb
    rw [← Option.some.inj h]
    refine .name (oghamSpace_mem_of_name (n := b.1) ?_ ?_ (by simpa using hnot))
    · exact hkb ▸ (hs.writable.comparisons k hk).name
    · exact hkb ▸ (hs.drawn.comparisons k hk).name
  split at h
  · next hany =>
    obtain ⟨b, hb, hnot⟩ := List.any_eq_true.1 hany
    have htext : isMarkupText b.2 = false := by simpa using hnot
    rw [← Option.some.inj h]
    rcases value_of_mem_asked hb with hempty | ⟨k, hk, hvalue⟩
    · rw [hempty] at htext
      exact absurd htext (by decide)
    · refine .text (Bool.eq_false_iff.2 fun he => ?_)
      have hall : isMarkupText b.2 = true := List.all_eq_true.2 fun c hc =>
        List.all_eq_true.1 he c ((hs.drawn.comparisons k hk).value b.2 hvalue hc)
      rw [htext] at hall
      exact absurd hall (by simp)
  · exact absurd h (by simp)

end

end XmlPaths

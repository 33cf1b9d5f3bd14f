import Mathlib.Data.List.Induction
import Mathlib.Data.List.Nodup
import XmlPaths.Build.Attributes
import XmlPaths.Tree.Node

/-!
# The attributes of new elements

A step asks for one attribute per name, in the order in which the names are first mentioned, with
the value that is demanded last or an empty one.  A conflict is met where a value is demanded that
differs from the one before; there is none exactly if the comparisons don't contradict each other.

* `demanded`, `lastDemanded`   the value that comparisons demand of an attribute;
* `Consistent`               no two comparisons demand different values of one attribute;
* `Overrides`                a comparison demands another value than the last one in front of it;
* `asked`                    the attributes that comparisons ask for, with the last values;
* `ChildStep.attributes`     the attributes of a step's element if the step doesn't contradict itself;
* `recorded_ofComparisons`   these are derived, with the conflicts that are met;
* `ofComparisons_of_consistent`   what is derived if the comparisons don't contradict each other.
-/

namespace XmlPaths

/-- the value that the comparisons demand of an attribute, the first one if there are several -/
def demanded (ks : List Comparison) (a : String) : Option String :=
  ks.findSome? fun k => if k.name = a then k.value else none

/-- the value that the comparisons demand of an attribute, the last one if there are several -/
def lastDemanded (ks : List Comparison) (a : String) : Option String := demanded ks.reverse a

def Consistent (ks : List Comparison) : Prop :=
  ∀ k ∈ ks, ∀ k' ∈ ks, k.name = k'.name → ∀ v ∈ k.value, ∀ v' ∈ k'.value, v = v'

instance (ks : List Comparison) : Decidable (Consistent ks) :=
  inferInstanceAs (Decidable (∀ k ∈ ks, ∀ k' ∈ ks, k.name = k'.name →
    ∀ v ∈ k.value, ∀ v' ∈ k'.value, v = v'))

/-- A comparison demands a value, the last demand on its attribute in front of it another one. -/
def Overrides (before : List Comparison) (k : Comparison) (v : String) : Prop :=
  k.value = some v ∧ ∃ w ∈ lastDemanded before k.name, w ≠ v

/-- what a step demands can be met -/
def Step.Consistent : Step → Prop
  | .element s => XmlPaths.Consistent s.comparisons
  | .attribute _ => True

instance (s : Step) : Decidable s.Consistent :=
  match s with
  | .element s => inferInstanceAs (Decidable (XmlPaths.Consistent s.comparisons))
  | .attribute _ => .isTrue trivial

/-- the names in a list of comparisons, each where it is first mentioned -/
def mentioned (ks : List Comparison) : List String := (ks.map Comparison.name).eraseDups

/-- the attributes that comparisons ask for, with the values that they demand last -/
def asked (ks : List Comparison) : Entries :=
  (mentioned ks).map fun a => (a, (lastDemanded ks a).getD "")

def ChildStep.attributes (s : ChildStep) : List Attribute :=
  (mentioned s.comparisons).map fun a => ⟨⟨none, a⟩, (demanded s.comparisons a).getD ""⟩

/-! ## names and values -/

theorem eraseDups_concat (l : List String) (a : String) :
    (l ++ [a]).eraseDups = if a ∈ l then l.eraseDups else l.eraseDups ++ [a] := by
  rw [List.eraseDups_append]
  by_cases h : a ∈ l
  · simp [List.removeAll, h]
  · simp [List.removeAll, h, List.eraseDups_cons]

theorem nodup_eraseDups (l : List String) : l.eraseDups.Nodup := by
  induction l using List.reverseRecOn with
  | nil => simp
  | append_singleton l b ih =>
    rw [eraseDups_concat]
    by_cases h : b ∈ l
    · rwa [if_pos h]
    · rw [if_neg h, List.nodup_append]
      refine ⟨ih, by simp, fun a ha c hc => ?_⟩
      rw [List.mem_singleton.1 hc]
      rintro rfl
      exact h (List.mem_eraseDups.1 ha)

theorem mem_mentioned {ks : List Comparison} {a : String} :
    a ∈ mentioned ks ↔ ∃ k ∈ ks, k.name = a := by
  rw [mentioned, List.mem_eraseDups, List.mem_map]

theorem mentioned_concat (ks : List Comparison) (k : Comparison) :
    mentioned (ks ++ [k]) =
      if k.name ∈ mentioned ks then mentioned ks else mentioned ks ++ [k.name] := by
  simp only [mentioned, List.map_append, List.map_singleton, eraseDups_concat,
    List.mem_eraseDups]

theorem exists_of_demanded {ks : List Comparison} {a v : String} (h : demanded ks a = some v) :
    ∃ k ∈ ks, k.name = a ∧ k.value = some v := by
  obtain ⟨k, hk, hv⟩ := List.exists_of_findSome?_eq_some h
  by_cases hname : k.name = a
  · rw [if_pos hname] at hv
    exact ⟨k, hk, hname, hv⟩
  · rw [if_neg hname] at hv
    exact absurd hv (by simp)

theorem demanded_ne_none {ks : List Comparison} {k : Comparison} (hk : k ∈ ks) {v : String}
    (hv : k.value = some v) : demanded ks k.name ≠ none := by
  intro hnone
  have h := List.findSome?_eq_none_iff.1 hnone k hk
  rw [if_pos rfl, hv] at h
  exact absurd h (by simp)

theorem demanded_of_mem {ks : List Comparison} (h : Consistent ks) {k : Comparison}
    (hk : k ∈ ks) {v : String} (hv : k.value = some v) : demanded ks k.name = some v := by
  cases hd : demanded ks k.name with
  | none => exact absurd hd (demanded_ne_none hk hv)
  | some w =>
    obtain ⟨k', hk', hname, hw⟩ := exists_of_demanded hd
    rw [h k hk k' hk' hname.symm v hv w hw]

/-- Where values can be given that are demanded, no two demands differ. -/
theorem consistent_of_values {ks : List Comparison} (value? : String → Option String)
    (h : ∀ k ∈ ks, ∀ v ∈ k.value, value? k.name = some v) : Consistent ks := by
  intro k hk k' hk' hname v hv v' hv'
  have hsame := h k hk v hv
  rw [hname, h k' hk' v' hv'] at hsame
  exact (Option.some.inj hsame).symm

/-! ## the last demand -/

theorem lastDemanded_concat (ks : List Comparison) (k : Comparison) (a : String) :
    lastDemanded (ks ++ [k]) a =
      (if k.name = a then k.value else none).or (lastDemanded ks a) := by
  rw [lastDemanded, List.reverse_concat, demanded, List.findSome?_cons]
  cases h : if k.name = a then k.value else none with
  | none => rfl
  | some v => rfl

theorem lastDemanded_of_present {k : Comparison} (hv : k.value = none) (ks : List Comparison)
    (a : String) : lastDemanded (ks ++ [k]) a = lastDemanded ks a := by
  rw [lastDemanded_concat, hv, ite_self, Option.none_or]

theorem lastDemanded_self {k : Comparison} {v : String} (hv : k.value = some v)
    (ks : List Comparison) : lastDemanded (ks ++ [k]) k.name = some v := by
  rw [lastDemanded_concat, if_pos rfl, hv, Option.some_or]

theorem lastDemanded_of_ne {k : Comparison} {a : String} (h : a ≠ k.name)
    (ks : List Comparison) : lastDemanded (ks ++ [k]) a = lastDemanded ks a := by
  rw [lastDemanded_concat, if_neg h.symm, Option.none_or]

theorem exists_of_lastDemanded {ks : List Comparison} {a v : String}
    (h : lastDemanded ks a = some v) : ∃ k ∈ ks, k.name = a ∧ k.value = some v := by
  obtain ⟨k, hk, hname, hv⟩ := exists_of_demanded h
  exact ⟨k, List.mem_reverse.1 hk, hname, hv⟩

theorem lastDemanded_ne_none {ks : List Comparison} {k : Comparison} (hk : k ∈ ks) {v : String}
    (hv : k.value = some v) : lastDemanded ks k.name ≠ none :=
  demanded_ne_none (List.mem_reverse.2 hk) hv

/-- Without contradictions the last demand is the first one. -/
theorem lastDemanded_of_consistent {ks : List Comparison} (h : Consistent ks) (a : String) :
    lastDemanded ks a = demanded ks a := by
  cases hw : lastDemanded ks a with
  | none =>
    cases hv : demanded ks a with
    | none => rfl
    | some v =>
      obtain ⟨k, hk, rfl, hkv⟩ := exists_of_demanded hv
      exact absurd hw (lastDemanded_ne_none hk hkv)
  | some w =>
    obtain ⟨k, hk, rfl, hkw⟩ := exists_of_lastDemanded hw
    exact (demanded_of_mem h hk hkw).symm

/-- Only the last demand in front of a comparison has to be compared with its own. -/
theorem consistent_concat_iff (ks : List Comparison) (k : Comparison) :
    Consistent (ks ++ [k]) ↔ Consistent ks ∧ ∀ v, ¬ Overrides ks k v := by
  constructor
  · intro h
    refine ⟨fun l hl l' hl' => h l (List.mem_append_left _ hl) l' (List.mem_append_left _ hl'), ?_⟩
    rintro v ⟨hv, w, hw, hne⟩
    obtain ⟨l, hl, hname, hlw⟩ := exists_of_lastDemanded hw
    exact hne (h l (List.mem_append_left _ hl) k (by simp) hname w hlw v hv)
  · rintro ⟨hks, hk⟩
    -- a demand in front of `k` has the value of the last one, hence that of `k`
    have hlast : ∀ l ∈ ks, l.name = k.name → ∀ u ∈ l.value, ∀ v ∈ k.value, u = v := by
      intro l hl hname u hu v hv
      by_contra hne
      refine hk v ⟨hv, u, ?_, hne⟩
      rw [← hname, lastDemanded_of_consistent hks]
      exact demanded_of_mem hks hl hu
    intro l hl l' hl' hname u hu u' hu'
    rw [List.mem_append, List.mem_singleton] at hl hl'
    rcases hl with hl | rfl
    · rcases hl' with hl' | rfl
      · exact hks l hl l' hl' hname u hu u' hu'
      · exact hlast l hl hname u hu u' hu'
    · rcases hl' with hl' | rfl
      · exact (hlast l' hl' hname.symm u' hu' u hu).symm
      · exact Option.some.inj (hu.symm.trans hu')

/-! ## the derivation -/

/-- the parts of a list in front of its members and behind them, with one more member at the end -/
theorem exists_split_concat_iff {α : Type} {P : List α → α → Prop} {xs : List α} {x : α} :
    (∃ before y after, xs ++ [x] = before ++ y :: after ∧ P before y) ↔
      (∃ before y after, xs = before ++ y :: after ∧ P before y) ∨ P xs x := by
  constructor
  · rintro ⟨before, y, after, hxs, h⟩
    rcases List.eq_nil_or_concat' after with rfl | ⟨after, z, rfl⟩
    · obtain ⟨rfl, hxy⟩ := List.append_inj' hxs rfl
      rw [(List.cons.inj hxy).1]
      exact .inr h
    · rw [← List.cons_append, ← List.append_assoc] at hxs
      exact .inl ⟨before, y, after, (List.append_inj' hxs rfl).1, h⟩
  · rintro (⟨before, y, after, rfl, h⟩ | h)
    · exact ⟨before, y, after ++ [x], by rw [List.append_assoc, List.cons_append], h⟩
    · exact ⟨xs, x, [], rfl, h⟩

theorem put_map {as : List String} {value : String → String} (n v : String) :
    Entries.put (as.map fun a => (a, value a)) n v =
      if n ∈ as then as.map fun a => (a, if a = n then v else value a)
      else as.map (fun a => (a, value a)) ++ [(n, v)] := by
  have hany : (as.map fun a => (a, value a)).any (·.1 == n) = decide (n ∈ as) := by
    rw [List.any_map, Bool.eq_iff_iff]
    simp
  rw [Entries.put, hany]
  by_cases h : n ∈ as
  · rw [if_pos (by simpa using h), if_pos h, List.map_map]
    refine List.map_congr_left fun a _ => ?_
    by_cases ha : a = n
    · simp [ha]
    · simp [ha]
  · rw [if_neg (by simpa using h), if_neg h]

theorem value?_map {as : List String} (value : String → String) (n : String) :
    Entries.value? (as.map fun a => (a, value a)) n = if n ∈ as then some (value n) else none := by
  induction as with
  | nil => rfl
  | cons a as ih =>
    rw [List.map_cons, Entries.value?, List.lookup_cons]
    by_cases h : n = a
    · rw [h]
      simp
    · have hbeq : (n == a) = false := by simpa using h
      rw [hbeq]
      dsimp only
      have hmem : n ∈ a :: as ↔ n ∈ as := by simp [h]
      simp only [hmem]
      exact ih

theorem value?_asked (ks : List Comparison) (a : String) :
    (asked ks).value? a =
      if a ∈ mentioned ks then some ((lastDemanded ks a).getD "") else none :=
  value?_map _ a

theorem isSome_value?_asked (ks : List Comparison) (a : String) :
    ((asked ks).value? a).isSome = true ↔ a ∈ mentioned ks := by
  rw [value?_asked]
  by_cases h : a ∈ mentioned ks
  · simp [h]
  · simp [h]

theorem map_fst_asked (ks : List Comparison) : (asked ks).map Prod.fst = mentioned ks := by
  rw [asked, List.map_map]
  exact List.map_id _

theorem name_of_mem_asked {ks : List Comparison} {e : String × String} (h : e ∈ asked ks) :
    ∃ k ∈ ks, k.name = e.1 := by
  rw [← mem_mentioned, ← map_fst_asked]
  exact List.mem_map_of_mem h

/-- The values of attributes are empty or demanded. -/
theorem value_of_mem_asked {ks : List Comparison} {e : String × String} (h : e ∈ asked ks) :
    e.2 = "" ∨ ∃ k ∈ ks, k.value = some e.2 := by
  obtain ⟨a, -, rfl⟩ := List.mem_map.1 h
  cases hv : lastDemanded ks a with
  | none => exact .inl rfl
  | some v =>
    obtain ⟨k, hk, -, hkv⟩ := exists_of_lastDemanded hv
    exact .inr ⟨k, hk, hkv⟩

/-- A comparison that demands no value adds at most an empty attribute. -/
theorem asked_concat_of_present {k : Comparison} (hv : k.value = none) (ks : List Comparison) :
    asked (ks ++ [k]) =
      if k.name ∈ mentioned ks then asked ks else (asked ks).put k.name "" := by
  have hlast : lastDemanded (ks ++ [k]) = lastDemanded ks := funext (lastDemanded_of_present hv ks)
  rw [asked, asked, hlast, mentioned_concat]
  by_cases hk : k.name ∈ mentioned ks
  · rw [if_pos hk, if_pos hk]
  · have hnone : lastDemanded ks k.name = none := by
      cases hw : lastDemanded ks k.name with
      | none => rfl
      | some w =>
        obtain ⟨l, hl, hname, -⟩ := exists_of_lastDemanded hw
        exact absurd (mem_mentioned.2 ⟨l, hl, hname⟩) hk
    rw [if_neg hk, if_neg hk, put_map, if_neg hk, List.map_append, List.map_singleton, hnone]
    rfl

/-- A value that is demanded replaces the one before. -/
theorem asked_concat_of_demanded {k : Comparison} {v : String} (hv : k.value = some v)
    (ks : List Comparison) : asked (ks ++ [k]) = (asked ks).put k.name v := by
  rw [asked, asked, put_map, mentioned_concat]
  by_cases hk : k.name ∈ mentioned ks
  · rw [if_pos hk, if_pos hk]
    refine List.map_congr_left fun a _ => ?_
    by_cases ha : a = k.name
    · rw [if_pos ha, ha, lastDemanded_self hv, Option.getD_some]
    · rw [if_neg ha, lastDemanded_of_ne ha]
  · have hother : ∀ a ∈ mentioned ks, (a, (lastDemanded (ks ++ [k]) a).getD "") =
        (a, (lastDemanded ks a).getD "") := by
      intro a ha
      rw [lastDemanded_of_ne fun hak => hk (hak ▸ ha)]
    rw [if_neg hk, if_neg hk, List.map_append, List.map_singleton, lastDemanded_self hv,
      List.map_congr_left hother]
    rfl

/-- what has been derived from comparisons, whether they contradict each other or not -/
structure Recorded (ks : List Comparison) (d : Derivation) : Prop where
  attributes : d.attributes = asked ks
  demanded : ∀ a, d.demanded.value? a = lastDemanded ks a
  conflicts : ∀ a v, (a, v) ∈ d.conflicts ↔
    ∃ before k after, ks = before ++ k :: after ∧ k.name = a ∧ Overrides before k v

/-- the conflict of a comparison that demands a value -/
theorem mem_conflict_iff {k : Comparison} {v : String} (hv : k.value = some v)
    (before : List Comparison) (a u : String) :
    (a, u) ∈ (if (lastDemanded before k.name).any (· != v) then [(k.name, v)] else []) ↔
      k.name = a ∧ Overrides before k u := by
  rw [Overrides, hv]
  by_cases h : (lastDemanded before k.name).any (· != v) = true
  · rw [if_pos h, List.mem_singleton, Prod.mk.injEq]
    rw [Option.any_eq_true] at h
    obtain ⟨w, hw, hne⟩ := h
    constructor
    · rintro ⟨rfl, rfl⟩
      exact ⟨rfl, rfl, w, hw, by simpa using hne⟩
    · rintro ⟨rfl, hu, -⟩
      exact ⟨rfl, (Option.some.inj hu).symm⟩
  · rw [if_neg h]
    refine ⟨fun hmem => absurd hmem (by simp), fun ⟨_, hu, w, hw, hne⟩ => absurd ?_ h⟩
    rw [Option.any_eq_true]
    exact ⟨w, hw, by simpa [Option.some.inj hu] using hne⟩

namespace Recorded

variable {ks : List Comparison} {d : Derivation} (hd : Recorded ks d) {k : Comparison}
include hd

theorem add_present (hv : k.value = none) : Recorded (ks ++ [k]) (d.add k) := by
  have hdemanded : ∀ a, d.demanded.value? a = lastDemanded (ks ++ [k]) a := fun a => by
    rw [hd.demanded, lastDemanded_of_present hv]
  have hconflicts : ∀ a v, (a, v) ∈ d.conflicts ↔
      ∃ before l after, ks ++ [k] = before ++ l :: after ∧ l.name = a ∧ Overrides before l v := by
    intro a v
    have hnot : ¬ Overrides ks k v := fun h => absurd (hv.symm.trans h.1) (by simp)
    rw [exists_split_concat_iff, hd.conflicts]
    simp [hnot]
  have hsome := isSome_value?_asked ks k.name
  rw [← hd.attributes] at hsome
  rw [Derivation.add, hv]
  dsimp only
  by_cases hk : k.name ∈ mentioned ks
  · rw [if_pos (hsome.2 hk)]
    refine ⟨?_, hdemanded, hconflicts⟩
    rw [asked_concat_of_present hv, if_pos hk, hd.attributes]
  · rw [if_neg fun h => hk (hsome.1 h)]
    refine ⟨?_, hdemanded, hconflicts⟩
    rw [asked_concat_of_present hv, if_neg hk, hd.attributes]

theorem add_demanded {v : String} (hv : k.value = some v) : Recorded (ks ++ [k]) (d.add k) := by
  rw [Derivation.add, hv]
  refine ⟨?_, fun a => ?_, fun a u => ?_⟩
  · rw [asked_concat_of_demanded hv, ← hd.attributes]
  · by_cases ha : a = k.name
    · rw [ha, Entries.value?_put_self, lastDemanded_self hv]
    · rw [Entries.value?_put_of_ne _ _ ha, hd.demanded, lastDemanded_of_ne ha]
  · dsimp only
    rw [exists_split_concat_iff, List.mem_append, hd.conflicts, hd.demanded, mem_conflict_iff hv]

theorem add (k : Comparison) : Recorded (ks ++ [k]) (d.add k) := by
  cases hv : k.value with
  | none => exact hd.add_present hv
  | some v => exact hd.add_demanded hv

end Recorded

/-- **What is derived from comparisons**: the attributes that they mention with the values that
they demand last, and a conflict wherever a value differs from the last one before it. -/
theorem recorded_ofComparisons (ks : List Comparison) :
    Recorded ks (Derivation.ofComparisons ks) := by
  induction ks using List.reverseRecOn with
  | nil =>
    refine ⟨rfl, fun _ => rfl, fun a v => ?_⟩
    simp [Derivation.ofComparisons, Derivation.empty]
  | append_singleton ks k ih =>
    have hstep : Derivation.ofComparisons (ks ++ [k]) = (Derivation.ofComparisons ks).add k := by
      rw [Derivation.ofComparisons, List.foldl_concat]
      rfl
    rw [hstep]
    exact ih.add k

/-- Two comparisons contradict each other exactly if some comparison overrides the last demand in
front of it: existence tests and equal demands in between don't hide a contradiction. -/
theorem not_consistent_iff (ks : List Comparison) :
    ¬ Consistent ks ↔ ∃ before k after, ks = before ++ k :: after ∧ ∃ v, Overrides before k v := by
  induction ks using List.reverseRecOn with
  | nil =>
    have hnil : Consistent [] := fun k hk => absurd hk (by simp)
    simp [hnil]
  | append_singleton ks k ih =>
    rw [consistent_concat_iff, exists_split_concat_iff, ← ih, not_and_or, not_forall_not]

theorem conflicts_eq_nil_iff (ks : List Comparison) :
    (Derivation.ofComparisons ks).conflicts = [] ↔ Consistent ks := by
  have hmem := (recorded_ofComparisons ks).conflicts
  rw [← not_iff_not, not_consistent_iff]
  constructor
  · intro hne
    obtain ⟨⟨a, v⟩, h⟩ := List.exists_mem_of_ne_nil _ hne
    obtain ⟨before, k, after, hks, -, hv⟩ := (hmem a v).1 h
    exact ⟨before, k, after, hks, v, hv⟩
  · rintro ⟨before, k, after, hks, v, hv⟩
    exact List.ne_nil_of_mem ((hmem k.name v).2 ⟨before, k, after, hks, rfl, hv⟩)

/-- what has been derived from comparisons that don't contradict each other -/
structure Derived (ks : List Comparison) (d : Derivation) : Prop where
  attributes : d.attributes = (mentioned ks).map fun a => (a, (demanded ks a).getD "")
  demanded : ∀ a, d.demanded.value? a = demanded ks a
  conflicts : d.conflicts = []

theorem ofComparisons_of_consistent {ks : List Comparison} (h : Consistent ks) :
    Derived ks (Derivation.ofComparisons ks) := by
  have hd := recorded_ofComparisons ks
  have hlast : lastDemanded ks = demanded ks := funext (lastDemanded_of_consistent h)
  refine ⟨?_, fun a => ?_, (conflicts_eq_nil_iff ks).2 h⟩
  · rw [hd.attributes, asked, hlast]
  · rw [hd.demanded, hlast]

/-! ## what a new element has -/

theorem attribute?_entries (n : Name) (es : Entries) (t : Option String) (a : String) :
    (Element.mk n (es.map fun e => ⟨⟨none, e.1⟩, e.2⟩) t).attribute? ⟨none, a⟩ = es.value? a := by
  rw [Element.attribute?, Entries.value?]
  induction es with
  | nil => rfl
  | cons e es ih =>
    rw [List.map_cons, List.find?_cons, List.lookup_cons]
    by_cases h : a = e.1
    · simp [h]
    · have hname : ((⟨none, e.1⟩ : Name) == ⟨none, a⟩) = false := by
        simpa using fun he => h he.symm
      have hbeq : (a == e.1) = false := by simpa using h
      rw [hname, hbeq]
      exact ih

namespace ChildStep

theorem nodup_attributes (s : ChildStep) : (s.attributes.map Attribute.name).Nodup := by
  rw [attributes, List.map_map]
  refine List.Nodup.map (fun a b h => ?_) (nodup_eraseDups _)
  have hname : Name.mk none a = Name.mk none b := h
  exact (Name.mk.inj hname).2

theorem attribute?_attributes (s : ChildStep) (n : Name) (t : Option String) (a : String) :
    (Element.mk n s.attributes t).attribute? ⟨none, a⟩ =
      if a ∈ mentioned s.comparisons then some ((demanded s.comparisons a).getD "") else none := by
  have hentries : s.attributes = ((mentioned s.comparisons).map fun a =>
      (a, (demanded s.comparisons a).getD "")).map fun e => ⟨⟨none, e.1⟩, e.2⟩ := by
    rw [List.map_map]
    rfl
  rw [hentries, attribute?_entries, value?_map]

end ChildStep

end XmlPaths

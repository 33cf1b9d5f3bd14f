import XmlPaths.Proofs.Path.Truncation

/-!
# What is refused as a path

An expression is refused where a step is missing or where something follows a step that can't
follow it.  The text there is inspected for features, from the start of the step and from its end.

* `diagnose_of_detect`, `diagnose_of_not_detect`, `snd_diagnose`   how a fault is found, and its
                        place;
* `Refuses`, `readSegments_error_iff`   what is refused, with the fault and the text from its
                        place on;
* `refuses_of_parse`, `parse_of_refuses`   the same for expressions.
-/

namespace XmlPaths

open Alphabet

/-! ## what is refused -/

theorem diagnose_of_detect {start : List Char} {f : Feature} (h : Feature.detect? start = some f)
    (text : List Char) (more : List (List Char)) :
    diagnose text (start :: more) = (.unsupported f, skipBlanks start) := by
  rw [diagnose, h]

theorem diagnose_of_not_detect {start : List Char} (h : Feature.detect? start = none)
    (text : List Char) (more : List (List Char)) :
    diagnose text (start :: more) = diagnose text more := by
  rw [diagnose, h]

/-- A fault is placed behind the blanks of one of the texts that are inspected. -/
theorem snd_diagnose (text : List Char) (starts : List (List Char)) :
    (diagnose text starts).2 = skipBlanks text ∨
      ∃ start ∈ starts, (diagnose text starts).2 = skipBlanks start := by
  induction starts with
  | nil =>
    left
    unfold diagnose
    split
    · next h => rw [h]
    · rfl
  | cons start more ih =>
    cases hd : Feature.detect? start with
    | some f =>
      rw [diagnose_of_detect hd]
      exact .inr ⟨start, List.mem_cons_self, rfl⟩
    | none =>
      rw [diagnose_of_not_detect hd]
      exact ih.imp_right fun ⟨s, hs, h⟩ => ⟨s, List.mem_cons_of_mem _ hs, h⟩

/-- What the reader of segments refuses, for which fault and at which place: a text without a step,
a step with something else than a slash behind it, a slash behind a step to an attribute, and a
step to an element with a slash and, behind that, what it refuses. -/
inductive Refuses : List Char → Fault × List Char → Prop
  | noStep {cs : List Char} (hs : readStep? cs = none) : Refuses cs (diagnose cs [cs])
  | noSlash {cs rest next : List Char} {c : Char} {s : Step} (hs : readStep? cs = some (s, rest))
      (hc : skipBlanks rest = c :: next) (hne : c ≠ '/') : Refuses cs (diagnose rest [cs, rest])
  | notLast {cs rest next : List Char} {s : Step} (hs : readStep? cs = some (s, rest))
      (hslash : skipBlanks rest = '/' :: next) (hattribute : s.isAttribute = true) :
      Refuses cs (.malformed .attributeNotLast, '/' :: next)
  | more {cs rest next : List Char} {s : Step} {x : Fault × List Char}
      (hs : readStep? cs = some (s, rest)) (hslash : skipBlanks rest = '/' :: next)
      (helement : s.isAttribute = false) (hrest : Refuses next x) : Refuses cs x

theorem refuses_of_readSegments {source cs : List Char} {x : Fault × List Char}
    (h : readSegments source cs = .error x) : Refuses cs x := by
  fun_induction readSegments source cs generalizing x with
  | case1 source cs hs => exact Except.error.inj h ▸ .noStep hs
  | case3 source cs s rest hs next hattribute =>
    rename_i hslash
    exact Except.error.inj h ▸ .notLast hs hslash hattribute
  | case5 source cs s rest hs next helement y hy =>
    rename_i hslash ih
    obtain rfl := Except.error.inj h
    exact .more hs hslash (Bool.eq_false_iff.2 helement) (ih hy)
  | case6 source cs s rest hs c next =>
    rename_i hc hne
    exact Except.error.inj h ▸ .noSlash hs hc hne
  -- in the other branches segments are read
  | case2 => exact absurd h (by simp)
  | case4 => exact absurd h (by simp)

/-- **What is refused**, and why and where, is just what `Refuses` has. -/
theorem readSegments_error_iff {source cs : List Char} {x : Fault × List Char} :
    readSegments source cs = .error x ↔ Refuses cs x := by
  refine ⟨refuses_of_readSegments, fun h => ?_⟩
  induction h generalizing source with
  | noStep hs => rw [readSegments_eq, hs]
  | noSlash hs hc hne =>
    rw [readSegments_eq, hs]
    simp only [hc, if_neg hne]
  | notLast hs hslash hattribute =>
    rw [readSegments_eq, hs]
    simp only [hslash, hattribute, if_true]
  | more hs hslash helement _ ih =>
    rw [readSegments_more hs hslash helement, ih]
    rfl

/-- An expression that is refused for a fault is not absolute, and the fault is one of its text. -/
theorem refuses_of_parse {e : String} {err : PathError} (h : Path.parse e = .error err) {p : Nat}
    (hp : err.position? = some p) :
    (skipBlanks e.toList).head? ≠ some '/' ∧
      ∃ x, Refuses e.toList x ∧ err = x.1.toError e x.2 := by
  by_cases hslash : (skipBlanks e.toList).head? = some '/'
  · rw [parse_of_isAbsolute hslash] at h
    rw [← Except.error.inj h] at hp
    exact absurd hp (by simp [PathError.position?])
  · refine ⟨hslash, ?_⟩
    rw [parse_of_not_isAbsolute hslash] at h
    cases hr : readSegments e.toList e.toList with
    | ok segs =>
      rw [hr] at h
      exact absurd h (by simp)
    | error x =>
      rw [hr] at h
      exact ⟨x, refuses_of_readSegments hr, (Except.error.inj h).symm⟩

theorem parse_of_refuses {e : String} (hslash : (skipBlanks e.toList).head? ≠ some '/')
    {x : Fault × List Char} (h : Refuses e.toList x) :
    Path.parse e = .error (x.1.toError e x.2) := by
  rw [parse_of_not_isAbsolute hslash, readSegments_error_iff.2 h]

end XmlPaths

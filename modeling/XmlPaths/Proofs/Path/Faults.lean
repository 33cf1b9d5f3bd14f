import Mathlib.Data.List.Basic
import XmlPaths.Failure
import XmlPaths.Proofs.Path.Refusals

/-!
# The places of faults

Up to the place of a fault an expression is sound: it is blank, or a path, or a path to an element
with a slash behind it.  This is an invariant of the reading, step by step.

* `Entire`              texts that are read to their end, with steps of a kind;
* `Intact`              what stands before the place of a fault;
* `exists_intact_of_refuses`   what is refused is intact up to the fault;
* `faultMessage_natCast`   what the message about a fault quotes;
* `position_of_parse`   the places of faults, and the messages about them.
-/

namespace XmlPaths

open Alphabet

/-! ## what stands before the place of a fault -/

/-- The text is read to its end, as steps that all have a property. -/
def Entire (p : Step → Prop) (cs : List Char) : Prop :=
  ∀ source, ∃ segs, readSegments source cs = .ok segs ∧ ∀ s ∈ segs, p s.step

section
variable {p : Step → Prop} {s : Step} (hp : p s) {cs w : List Char} (hw : full.Blanks w)
include hp hw

theorem entire_of_step (hs : readStep? cs = some (s, w)) : Entire p cs := by
  intro source
  refine ⟨_, readSegments_last hs (skipBlanks_blanks hw), fun t ht => ?_⟩
  rw [List.mem_singleton.1 ht]
  exact hp

theorem Entire.behind {next : List Char} (hnext : Entire p next)
    (hs : readStep? cs = some (s, w ++ '/' :: next)) (helement : s.isAttribute = false) :
    Entire p cs := by
  intro source
  obtain ⟨segs, hsegs, hall⟩ := hnext (w ++ '/' :: next)
  refine ⟨⟨String.ofList (consumed source (w ++ '/' :: next)), s⟩ :: segs, ?_, ?_⟩
  · rw [readSegments_more hs (skipBlanks_slash hw next) helement, hsegs]
    rfl
  · intro t ht
    rcases List.mem_cons.1 ht with rfl | ht
    · exact hp
    · exact hall t ht

end

/-- What stands before the place of a fault: blanks, a path, or a path to an element with a slash
and blanks behind it. -/
inductive Intact : List Char → Prop
  | blank {w : List Char} (hw : full.Blanks w) : Intact w
  | path {c : List Char} (hc : Entire (fun _ => True) c) : Intact c
  | slash {c w : List Char} (hc : Entire (·.isAttribute = false) c) (hw : full.Blanks w) :
      Intact (c ++ '/' :: w)

/-- A step is read from the text up to any place behind it. -/
theorem exists_readStep?_prefix {cs rest : List Char} {s : Step}
    (h : readStep? cs = some (s, rest)) :
    ∃ d, cs = d ++ rest ∧ ∀ r, r <+: rest → readStep? (d ++ r) = some (s, r) := by
  obtain ⟨d, hcs, -, hcut⟩ := exists_readStep?_cut (x := []) h
  refine ⟨d, hcs, ?_⟩
  rintro r ⟨t, ht⟩
  exact hcut r t ht.symm

theorem exists_intact_blank (cs : List Char) : ∃ d, cs = d ++ skipBlanks cs ∧ Intact d := by
  obtain ⟨u, hu, hcs⟩ := exists_blanks_append cs
  exact ⟨u, hcs, .blank hu⟩

theorem exists_intact_step {cs rest : List Char} {s : Step} (hs : readStep? cs = some (s, rest)) :
    ∃ d, cs = d ++ skipBlanks rest ∧ Intact d := by
  obtain ⟨d, rfl, hcut⟩ := exists_readStep?_prefix hs
  obtain ⟨u, hu, hrest⟩ := exists_blanks_append rest
  have hread := hcut u ⟨skipBlanks rest, hrest.symm⟩
  refine ⟨d ++ u, ?_, .path (entire_of_step trivial hu hread)⟩
  rw [List.append_assoc, ← hrest]

/-- A step to an element and a slash may stand before what is intact. -/
theorem Intact.behind {d w c : List Char} {s : Step} (hc : Intact c) (hw : full.Blanks w)
    (helement : s.isAttribute = false)
    (hcut : ∀ r, r <+: w ++ '/' :: c → readStep? (d ++ r) = some (s, r)) :
    Intact (d ++ (w ++ '/' :: c)) := by
  cases hc with
  | blank hc =>
    have hstep := entire_of_step (p := (·.isAttribute = false)) helement hw
      (hcut w (List.prefix_append w _))
    have h := Intact.slash hstep hc
    rwa [List.append_assoc] at h
  | path hc => exact .path (hc.behind trivial hw (hcut _ (List.prefix_refl _)) helement)
  | @slash c v hc hv =>
    have hpre : w ++ '/' :: c <+: w ++ '/' :: (c ++ '/' :: v) := ⟨'/' :: v, by simp⟩
    have h := Intact.slash (hc.behind helement hw (hcut _ hpre) helement) hv
    simpa only [List.append_assoc, List.cons_append] using h

/-- **The text up to the place of a fault is intact**, and no blank is at that place. -/
theorem exists_intact_of_refuses {cs : List Char} {x : Fault × List Char} (h : Refuses cs x) :
    Stops isBlank x.2 ∧ ∃ d, cs = d ++ x.2 ∧ Intact d := by
  induction h with
  | @noStep cs hs =>
    have hx : (diagnose cs [cs]).2 = skipBlanks cs := by
      rcases snd_diagnose cs [cs] with h | ⟨start, hstart, h⟩
      · exact h
      · rw [h, List.mem_singleton.1 hstart]
    rw [hx]
    exact ⟨stops_skipBlanks cs, exists_intact_blank cs⟩
  | @noSlash cs rest next c s hs _ _ =>
    have hx : (diagnose rest [cs, rest]).2 = skipBlanks rest ∨
        (diagnose rest [cs, rest]).2 = skipBlanks cs := by
      rcases snd_diagnose rest [cs, rest] with h | ⟨start, hstart, h⟩
      · exact .inl h
      · rcases List.mem_cons.1 hstart with rfl | hstart
        · exact .inr h
        · exact .inl (by rw [h, List.mem_singleton.1 hstart])
    rcases hx with hx | hx <;> rw [hx]
    · exact ⟨stops_skipBlanks rest, exists_intact_step hs⟩
    · exact ⟨stops_skipBlanks cs, exists_intact_blank cs⟩
  | @notLast cs rest next s hs hslash _ =>
    show Stops isBlank ('/' :: next) ∧ ∃ d, cs = d ++ '/' :: next ∧ Intact d
    rw [← hslash]
    exact ⟨stops_skipBlanks rest, exists_intact_step hs⟩
  | @more cs rest next s x hs hslash helement _ ih =>
    obtain ⟨hstop, c, hnext, hc⟩ := ih
    refine ⟨hstop, ?_⟩
    obtain ⟨d, rfl, hcut⟩ := exists_readStep?_prefix hs
    obtain ⟨w, hw, hrest⟩ := exists_blanks_append rest
    rw [hslash, hnext] at hrest
    refine ⟨d ++ (w ++ '/' :: c), ?_, hc.behind hw helement fun r hr => hcut r ?_⟩
    · rw [hrest]
      simp only [List.append_assoc, List.cons_append]
    · refine hr.trans ⟨x.2, ?_⟩
      rw [hrest, List.append_assoc, List.cons_append]

/-! ## expressions -/

theorem Fault.position?_toError (f : Fault) (e : String) (rest : List Char) :
    (f.toError e rest).position? = some (e.toList.length - rest.length) := by
  cases f <;> rfl

theorem Fault.expression_toError (f : Fault) (e : String) (rest : List Char) :
    (f.toError e rest).expression = e := by
  cases f <;> rfl

theorem Path.endsInAttribute_eq_false {q : Path} (h : ∀ s ∈ q.steps, s.isAttribute = false) :
    q.endsInAttribute = false := by
  unfold Path.endsInAttribute
  split
  · next s hs => exact h s (List.mem_of_getLast? hs)
  · rfl

/-- A beginning of an expression that is not absolute is a path if it is read to its end. -/
theorem exists_parse_of_entire {p : Step → Prop} {c r : List Char} (hc : Entire p c) {e : String}
    (he : e.toList = c ++ r) (hslash : (skipBlanks e.toList).head? ≠ some '/') :
    ∃ q, Path.parse (String.ofList c) = .ok q ∧ ∀ s ∈ q.steps, p s := by
  obtain ⟨segs, hsegs, hall⟩ := hc c
  have hslash' : (skipBlanks c).head? ≠ some '/' := by
    intro h
    apply hslash
    rw [he]
    exact head?_skipBlanks_append h r
  refine ⟨⟨String.ofList c, segs⟩, ?_, fun s hs => ?_⟩
  · rw [parse_of_not_isAbsolute (by rwa [String.toList_ofList]), String.toList_ofList, hsegs]
  · obtain ⟨segment, hsegment, rfl⟩ := List.mem_map.1 hs
    exact hall segment hsegment

/-! ## messages -/

/-- what is said about the fault itself -/
def PathError.complaint : PathError → String
  | .absolute e => absoluteMessage e
  | .unsupported _ _ f => unsupportedMessage f.description
  | .malformed _ _ m => m.message

theorem slice_natCast {cs : List Char} {p n : Nat} :
    slice cs p (min (p + n) cs.length) = (cs.drop p).take n := by
  have hstart : ¬ (p : Int) < 0 := by omega
  have hstop : ¬ (min ((p : Int) + n) cs.length) < 0 := by omega
  have hbound : (min ((p : Int) + n) cs.length).toNat = min (p + n) cs.length := by omega
  unfold slice
  simp only [hstart, hstop, if_false, hbound, Int.toNat_natCast]
  rw [List.drop_take, List.take_eq_take_iff, List.length_drop]
  omega

theorem quoteAt_natCast {e : String} {p : Nat} (hp : p ≤ e.length) :
    quoteAt e p = if p = e.length then none
      else some ("`" ++ String.ofList ((e.toList.drop p).take 16) ++
        (if p + 16 < e.length then "…" else "") ++ "`") := by
  have hlen : e.toList.length = e.length := String.length_toList
  have hstop : (min ((p : Int) + (quotationLength : Nat)) e.toList.length < e.toList.length) ↔
      p + 16 < e.length := by
    rw [hlen, show quotationLength = 16 from rfl]
    omega
  have hempty : (e.toList.drop p).take 16 = [] ↔ p = e.length := by
    rw [List.take_eq_nil_iff, List.drop_eq_nil_iff, hlen]
    omega
  unfold quoteAt
  simp only [slice_natCast, hstop]
  rw [show quotationLength = 16 from rfl]
  by_cases hend : p = e.length
  · have hmore : ¬ p + 16 < e.length := by omega
    rw [if_pos hend, hempty.2 hend, if_neg hmore]
    rfl
  · have hquoted (more : List Char) : ((e.toList.drop p).take 16 ++ more).isEmpty = false := by
      rw [List.isEmpty_eq_false_iff]
      exact fun h => hend (hempty.1 (List.append_eq_nil_iff.1 h).1)
    rw [if_neg hend, hquoted, if_neg Bool.false_ne_true, Option.some.injEq, ← String.toList_inj]
    split <;> simp

/-- **The message about a fault** quotes sixteen characters from its place on, and an ellipsis if
there are more; at the end of the expression it quotes nothing. -/
theorem faultMessage_natCast {e : String} {p : Nat} (hp : p ≤ e.length) (message : String) :
    faultMessage e p message = "XPath parsing error at character " ++ toString p ++
      (if p = e.length then "" else " (`" ++ String.ofList ((e.toList.drop p).take 16) ++
        (if p + 16 < e.length then "…" else "") ++ "`)") ++ ": " ++ message := by
  unfold faultMessage
  rw [quoteAt_natCast hp, show toString (p : Int) = toString p from rfl]
  by_cases hend : p = e.length
  · rw [if_pos hend, if_pos hend, String.append_empty]
  · rw [if_neg hend, if_neg hend]
    simp only [String.append_assoc]
    rfl

theorem message_of_position {err : PathError} {p : Nat} (h : err.position? = some p) :
    err.message = faultMessage err.expression p err.complaint := by
  cases err with
  | absolute e => exact absurd h (by simp [PathError.position?])
  | unsupported e q f =>
    obtain rfl : q = p := Option.some.inj h
    rfl
  | malformed e q m =>
    obtain rfl : q = p := Option.some.inj h
    rfl

theorem message?_path (err : PathError) : (Failure.path err).message? = some err.message := by
  cases err <;> rfl

/-- **The place of a fault splits off what is sound of the expression.**  It lies within the
expression or at its end, not at a blank, and what stands before it is blank, or a path, or a path
to an element with a slash and blanks behind it.  The error always has a text; that quotes sixteen
characters from the place on, with an ellipsis if there are more, and nothing at the end. -/
theorem position_of_parse {e : String} {err : PathError} (h : Path.parse e = .error err) {p : Nat}
    (hp : err.position? = some p) :
    p ≤ e.length ∧ (p = e.length ∨ ∃ c, e.toList[p]? = some c ∧ isBlank c = false) ∧
    (full.Blanks (e.toList.take p) ∨
      (∃ q, Path.parse (String.ofList (e.toList.take p)) = .ok q) ∨
      ∃ c w q, e.toList.take p = c.toList ++ '/' :: w ∧ full.Blanks w ∧ Path.parse c = .ok q ∧
        q.endsInAttribute = false) ∧
    (Failure.path err).message? = some ("XPath parsing error at character " ++ toString p ++
      (if p = e.length then "" else " (`" ++ String.ofList ((e.toList.drop p).take 16) ++
        (if p + 16 < e.length then "…" else "") ++ "`)") ++ ": " ++ err.complaint) := by
  obtain ⟨hslash, ⟨fault, rest⟩, hx, rfl⟩ := refuses_of_parse h hp
  obtain ⟨hstop, d, he, hd⟩ := exists_intact_of_refuses hx
  have hlen : e.length = d.length + rest.length := by
    rw [← String.length_toList, he, List.length_append]
  obtain rfl : d.length = p := by
    rw [Fault.position?_toError, he, List.length_append] at hp
    have hp' := Option.some.inj hp
    omega
  have htake : e.toList.take d.length = d := by rw [he, List.take_left]
  have hle : d.length ≤ e.length := by omega
  refine ⟨hle, ?_, ?_, ?_⟩
  · cases rest with
    | nil => exact .inl (by simpa using hlen.symm)
    | cons c rest =>
      refine .inr ⟨c, ?_, stops_cons.1 hstop⟩
      rw [he, List.getElem?_append_right (Nat.le_refl _), Nat.sub_self]
      rfl
  · rw [htake]
    cases hd with
    | blank hw => exact .inl hw
    | path hc =>
      obtain ⟨q, hq, -⟩ := exists_parse_of_entire hc he hslash
      exact .inr (.inl ⟨q, hq⟩)
    | @slash c w hc hw =>
      rw [List.append_assoc] at he
      obtain ⟨q, hq, hall⟩ := exists_parse_of_entire hc he hslash
      refine .inr (.inr ⟨String.ofList c, w, q, ?_, hw, hq, Path.endsInAttribute_eq_false hall⟩)
      rw [String.toList_ofList]
  · rw [message?_path, message_of_position hp, Fault.expression_toError,
      faultMessage_natCast hle]

/-- A slash and blanks before a wildcard, and a union sign and a slash in a literal before that. -/
theorem position_of_parse_wildcard :
    Path.parse "a [@b='|/'] / \n*[position() < 3]" =
      .error (.unsupported "a [@b='|/'] / \n*[position() < 3]" 15 .wildcard) ∧
    (full.Blanks "a [@b='|/'] / \n".toList ∨
      (∃ q, Path.parse "a [@b='|/'] / \n" = .ok q) ∨
      ∃ c w q, "a [@b='|/'] / \n".toList = c.toList ++ '/' :: w ∧ full.Blanks w ∧
        Path.parse c = .ok q ∧ q.endsInAttribute = false) ∧
    (Failure.path (.unsupported "a [@b='|/'] / \n*[position() < 3]" 15 .wildcard)).message? =
      some ("XPath parsing error at character 15 (`*[position() < 3…`): Wildcards are not " ++
        "supported. Only child element steps with attribute comparisons and a trailing attribute " ++
        "step can be used to create nodes.") := by
  have h : Path.parse "a [@b='|/'] / \n*[position() < 3]" =
      .error (.unsupported "a [@b='|/'] / \n*[position() < 3]" 15 .wildcard) := by decide +kernel
  obtain ⟨-, -, hsplit, hmessage⟩ := position_of_parse h rfl
  have htake : "a [@b='|/'] / \n*[position() < 3]".toList.take 15 = "a [@b='|/'] / \n".toList := by
    decide +kernel
  rw [htake, String.ofList_toList] at hsplit
  exact ⟨h, hsplit, hmessage.trans (by decide +kernel)⟩

end XmlPaths

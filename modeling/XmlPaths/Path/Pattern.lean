/-!
# Patterns with preferences

A pattern describes the texts that may stand at the front of an input.  There may be several such
texts; `Pattern.rests` lists what would be left of the input after each of them, the preferred one
first.

* `Pattern`           one character, sequence, choice, repetition;
* `Pattern.Matches`   the texts that a pattern describes;
* `Pattern.rests`     every way to read a pattern at the front of an input;
* `Pattern.mem_rests` the listed rests are exactly those that a described text leaves.
-/

namespace XmlPaths

/-- a description of texts; where there is a choice the first way is preferred -/
inductive Pattern where
  | empty
  | one (p : Char → Bool)
  | seq (a b : Pattern)
  | alt (a b : Pattern)
  | many (a : Pattern)

namespace Pattern

def char (c : Char) : Pattern := one (· == c)

def word : List Char → Pattern
  | [] => empty
  | c :: cs => seq (char c) (word cs)

def opt (a : Pattern) : Pattern := alt a empty

def atLeastOnce (a : Pattern) : Pattern := seq a (many a)

/-- the texts that a pattern describes -/
inductive Matches : Pattern → List Char → Prop where
  | empty : Matches empty []
  | one {p : Char → Bool} {c : Char} (h : p c = true) : Matches (one p) [c]
  | seq {a b : Pattern} {u v : List Char} (hu : Matches a u) (hv : Matches b v) :
      Matches (seq a b) (u ++ v)
  | left {a b : Pattern} {u : List Char} (h : Matches a u) : Matches (alt a b) u
  | right {a b : Pattern} {u : List Char} (h : Matches b u) : Matches (alt a b) u
  | done {a : Pattern} : Matches (many a) []
  | more {a : Pattern} {u v : List Char} (hu : Matches a u) (hv : Matches (many a) v) :
      Matches (many a) (u ++ v)

/-- The rests after any number of rounds of `f`, at most `n`; a round has to take something. -/
def rounds (f : List Char → List (List Char)) : Nat → List Char → List (List Char)
  | 0, cs => [cs]
  | n + 1, cs => ((f cs).filter (·.length < cs.length)).flatMap (rounds f n) ++ [cs]

/-- every way to read the pattern at the front of the input, told by what is left -/
def rests : Pattern → List Char → List (List Char)
  | empty, cs => [cs]
  | one _, [] => []
  | one p, c :: cs => if p c then [cs] else []
  | seq a b, cs => (a.rests cs).flatMap b.rests
  | alt a b, cs => a.rests cs ++ b.rests cs
  | many a, cs => rounds a.rests cs.length cs

/-- what is left after the preferred way to read the pattern -/
def rest? (a : Pattern) (cs : List Char) : Option (List Char) := (a.rests cs).head?

/-- how many characters the preferred way to read the pattern takes -/
def matchLength? (a : Pattern) (cs : List Char) : Option Nat :=
  (a.rest? cs).map (cs.length - ·.length)

/-! ## soundness -/

theorem rounds_sound {a : Pattern} {f : List Char → List (List Char)}
    (hf : ∀ cs r, r ∈ f cs → ∃ w, Matches a w ∧ cs = w ++ r) (n : Nat) (cs r : List Char)
    (h : r ∈ rounds f n cs) : ∃ w, Matches (many a) w ∧ cs = w ++ r := by
  induction n generalizing cs with
  | zero =>
    simp only [rounds, List.mem_singleton] at h
    exact ⟨[], .done, by simp [h]⟩
  | succ n ih =>
    simp only [rounds, List.mem_append, List.mem_flatMap, List.mem_filter, List.mem_singleton]
      at h
    rcases h with ⟨m, ⟨hm, -⟩, hr⟩ | rfl
    · obtain ⟨u, hu, rfl⟩ := hf cs m hm
      obtain ⟨v, hv, rfl⟩ := ih m hr
      exact ⟨u ++ v, .more hu hv, by simp⟩
    · exact ⟨[], .done, rfl⟩

theorem rests_sound (a : Pattern) (cs r : List Char) (h : r ∈ a.rests cs) :
    ∃ w, Matches a w ∧ cs = w ++ r := by
  induction a generalizing cs r with
  | empty =>
    simp only [rests, List.mem_singleton] at h
    exact ⟨[], .empty, by simp [h]⟩
  | one p =>
    cases cs with
    | nil => simp [rests] at h
    | cons c cs =>
      simp only [rests] at h
      split at h
      · next hp =>
        simp only [List.mem_singleton] at h
        exact ⟨[c], .one hp, by simp [h]⟩
      · simp at h
  | seq a b iha ihb =>
    simp only [rests, List.mem_flatMap] at h
    obtain ⟨m, hm, hr⟩ := h
    obtain ⟨u, hu, rfl⟩ := iha cs m hm
    obtain ⟨v, hv, rfl⟩ := ihb m r hr
    exact ⟨u ++ v, .seq hu hv, by simp⟩
  | alt a b iha ihb =>
    simp only [rests, List.mem_append] at h
    rcases h with h | h
    · obtain ⟨w, hw, e⟩ := iha cs r h
      exact ⟨w, .left hw, e⟩
    · obtain ⟨w, hw, e⟩ := ihb cs r h
      exact ⟨w, .right hw, e⟩
  | many a ih => exact rounds_sound (fun cs r h => ih cs r h) cs.length cs r h

/-! ## completeness -/

theorem mem_rounds_self (f : List Char → List (List Char)) (n : Nat) (cs : List Char) :
    cs ∈ rounds f n cs := by
  cases n <;> simp [rounds]

theorem rounds_complete {a : Pattern} {f : List Char → List (List Char)}
    (hf : ∀ w r, Matches a w → r ∈ f (w ++ r)) {w : List Char} {b : Pattern}
    (h : Matches b w) (hb : b = many a) (r : List Char) (n : Nat)
    (hn : (w ++ r).length ≤ n + r.length) : r ∈ rounds f n (w ++ r) := by
  induction h generalizing n with
  | done => simpa using mem_rounds_self f n r
  | @more a' u v hu hv _ ih =>
    obtain rfl : a' = a := by simpa using hb
    cases u with
    | nil => simpa using ih rfl n (by simpa using hn)
    | cons c u =>
      cases n with
      | zero =>
        simp only [List.cons_append, List.length_cons, List.length_append] at hn
        omega
      | succ n =>
        simp only [rounds, List.mem_append, List.mem_flatMap, List.mem_filter]
        refine Or.inl ⟨v ++ r, ⟨?_, ?_⟩, ih rfl n ?_⟩
        · have := hf (c :: u) (v ++ r) hu
          simpa using this
        · simp only [List.cons_append, List.append_assoc, List.length_cons, List.length_append,
            decide_eq_true_eq]
          omega
        · simp only [List.cons_append, List.append_assoc, List.length_cons, List.length_append]
            at hn ⊢
          omega
  | empty | one | seq | left | right => cases hb

theorem rests_complete {a : Pattern} {w : List Char} (h : Matches a w) (r : List Char) :
    r ∈ a.rests (w ++ r) := by
  induction a generalizing w r with
  | empty => cases h; simp [rests]
  | one p => cases h with | one hp => simp [rests, hp]
  | seq a b iha ihb =>
    cases h with
    | @seq _ _ u v hu hv =>
      simp only [rests, List.mem_flatMap]
      exact ⟨v ++ r, by simpa using iha hu (v ++ r), ihb hv r⟩
  | alt a b iha ihb =>
    simp only [rests, List.mem_append]
    cases h with
    | left h => exact Or.inl (iha h r)
    | right h => exact Or.inr (ihb h r)
  | many a ih => exact rounds_complete (fun w r h => ih h r) h rfl r _ (by simp)

/-- The rests are what the described texts at the front of the input leave. -/
theorem mem_rests {a : Pattern} {cs r : List Char} :
    r ∈ a.rests cs ↔ ∃ w, Matches a w ∧ cs = w ++ r := by
  constructor
  · exact rests_sound a cs r
  · rintro ⟨w, hw, rfl⟩
    exact rests_complete hw r

theorem length_le_of_mem_rests {a : Pattern} {cs r : List Char} (h : r ∈ a.rests cs) :
    r.length ≤ cs.length := by
  obtain ⟨w, -, rfl⟩ := mem_rests.1 h
  simp

theorem length_le_of_rest? {a : Pattern} {cs r : List Char} (h : a.rest? cs = some r) :
    r.length ≤ cs.length := by
  have hr : r ∈ (a.rests cs).head? := h
  exact length_le_of_mem_rests (List.mem_of_mem_head? hr)

/-- A pattern is read in some way iff a described text stands at the front of the input. -/
theorem rest?_isSome_iff {a : Pattern} {cs : List Char} :
    (a.rest? cs).isSome ↔ ∃ w r, Matches a w ∧ cs = w ++ r := by
  rw [rest?, List.isSome_head?]
  constructor
  · intro h
    obtain ⟨r, hr⟩ := List.exists_mem_of_ne_nil _ (by simpa using h)
    obtain ⟨w, hw, e⟩ := mem_rests.1 hr
    exact ⟨w, r, hw, e⟩
  · rintro ⟨w, r, hw, e⟩
    have := mem_rests.2 ⟨w, hw, e⟩
    cases hl : a.rests cs with
    | nil => rw [hl] at this; simp at this
    | cons _ _ => simp

end Pattern

end XmlPaths

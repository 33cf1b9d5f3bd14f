import XmlPaths.Proofs.Path.Restriction
import XmlPaths.Proofs.XPath.Lexing

/-!
# Blanks that the full language doesn't admit

The full language knows the four blanks of markup, path expressions know those of all scripts.  No
reader of the full language passes over one of the others outside of a literal, so that a text
which is read to its end has none.

* `isForeign`           the blanks of path expressions that are none of markup;
* `Kept`, `Keeps`       what is left of a text holds all of them, and readers that leave it so;
* `closing?`, `leadingSlashes`, `callOf?`   parts that some of them consist of;
* `keeps_expressionAt`  the readers of the full language do;
* `not_isForeign_of_parseChars?`   an expression has none of them outside of its literals.
-/

namespace XmlPaths.XPath

/-- a blank of path expressions that the full language doesn't know -/
def isForeign (c : Char) : Bool := isBlank c && !isMarkupBlank c

/-- The foreign blanks of a text outside of its literals are all in what is left of it. -/
def Kept (cs r : List Char) : Prop :=
  ∀ c ∈ unquoted none cs, isForeign c = true → c ∈ unquoted none r

def Keeps {α : Type} (reader : Reader α) : Prop :=
  ∀ ⦃cs a r⦄, reader cs = some (a, r) → Kept cs r

/-- a character that may be passed over: it is no foreign blank, and no literal begins with it -/
structure Passable (c : Char) : Prop where
  known : isForeign c = false
  apostrophe : c ≠ '\''
  quote : c ≠ '"'

instance (c : Char) : Decidable (Passable c) :=
  decidable_of_iff (isForeign c = false ∧ c ≠ '\'' ∧ c ≠ '"')
    ⟨fun h => ⟨h.1, h.2.1, h.2.2⟩, fun h => ⟨h.known, h.apostrophe, h.quote⟩⟩

/-! ## characters that are passed over -/

theorem passable_of_isMarkupBlank {c : Char} (h : isMarkupBlank c = true) : Passable c := by
  simp only [isMarkupBlank, Bool.or_eq_true, beq_iff_eq] at h
  rcases h with ((rfl | rfl) | rfl) | rfl <;> decide

theorem isNcNameChar_cases {c : Char} (h : isNcNameChar c = true) :
    XmlPaths.isNameChar c = true ∨ c = '-' ∨ c = '.' := by
  rw [isNcNameChar, Bool.or_eq_true] at h
  rw [XmlPaths.isNameChar, Bool.or_eq_true]
  rcases h with h | h
  · exact .inl (.inl h)
  · simp only [ncNameOnlyRanges, Ranges.covers, List.any_cons, List.any_nil, Bool.or_eq_true,
      Bool.and_eq_true, decide_eq_true_eq, Bool.or_false] at h
    simp only [nameOnlyRanges, Ranges.covers, List.any_cons, List.any_nil, Bool.or_eq_true,
      Bool.and_eq_true, decide_eq_true_eq, Bool.or_false]
    by_cases hc : c.toNat = 0x2d ∨ c.toNat = 0x2e
    · right
      rcases hc with hc | hc
      · exact .inl (Char.toNat_inj.1 hc)
      · exact .inr (Char.toNat_inj.1 hc)
    · left
      omega

theorem passable_of_isNameChar {c : Char} (h : isNameChar c = true) : Passable c := by
  rw [isNameChar, Bool.and_eq_true, bne_iff_ne] at h
  rcases isNcNameChar_cases h.1 with hname | rfl | rfl
  · refine ⟨?_, ?_, ?_⟩
    · rw [Bool.eq_false_iff]
      intro hforeign
      rw [isForeign, Bool.and_eq_true] at hforeign
      exact h.2 (eq_oghamSpace_of_isBlank_of_isNameChar hforeign.1 hname)
    · rintro rfl
      exact absurd hname (by decide)
    · rintro rfl
      exact absurd hname (by decide)
  · decide
  · decide

theorem passable_of_isDigit {c : Char} (h : c.isDigit = true) : Passable c := by
  refine passable_of_isNameChar ?_
  have hrange : 0x30 ≤ c.toNat ∧ c.toNat ≤ 0x39 := by
    simp only [Char.isDigit, Bool.and_eq_true, decide_eq_true_eq] at h
    exact ⟨UInt32.le_iff_toNat_le.1 h.1, UInt32.le_iff_toNat_le.1 h.2⟩
  have hne : c ≠ oghamSpace := by
    rintro rfl
    exact absurd hrange (by decide)
  have hname : ncNameOnlyRanges.covers c = true := by
    simp only [ncNameOnlyRanges, Ranges.covers, List.any_cons, List.any_nil, Bool.or_eq_true,
      Bool.and_eq_true, decide_eq_true_eq, Bool.or_false]
    omega
  rw [isNameChar, isNcNameChar, hname, Bool.or_true, Bool.true_and]
  simpa using hne

/-! ## what is left of a text -/

namespace Kept

variable {cs r s : List Char} {c d : Char}

theorem refl (cs : List Char) : Kept cs cs := fun _ hc _ => hc

theorem trans (h : Kept cs r) (h' : Kept r s) : Kept cs s :=
  fun c hc hforeign => h' c (h c hc hforeign) hforeign

theorem cons (hc : Passable c) (cs : List Char) : Kept (c :: cs) cs := by
  intro d hd hforeign
  rw [unquoted_cons hc.apostrophe hc.quote] at hd
  rcases List.mem_cons.1 hd with rfl | hd
  · rw [hc.known] at hforeign
    exact absurd hforeign (by simp)
  · exact hd

theorem append {w : List Char} (hw : w.all (decide <| Passable ·) = true) (cs : List Char) :
    Kept (w ++ cs) cs := by
  induction w with
  | nil => exact refl cs
  | cons c w ih =>
    rw [List.all_cons, Bool.and_eq_true, decide_eq_true_eq] at hw
    exact (cons hw.1 _).trans (ih hw.2)

theorem dropWhile {p : Char → Bool} (hp : ∀ c, p c = true → Passable c) (cs : List Char) :
    Kept cs (cs.dropWhile p) := by
  induction cs with
  | nil => exact refl []
  | cons c cs ih =>
    by_cases hc : p c = true
    · rw [List.dropWhile_cons_of_pos hc]
      exact (cons (hp c hc) cs).trans ih
    · rw [List.dropWhile_cons_of_neg hc]
      exact refl _

theorem skipSpace (cs : List Char) : Kept cs (skipSpace cs) :=
  dropWhile (fun _ => passable_of_isMarkupBlank) cs

/-- a character behind blanks -/
theorem of_skipSpace (h : XmlPaths.skipSpace cs = c :: r) (hc : Passable c) : Kept cs r := by
  have hskip := skipSpace cs
  rw [h] at hskip
  exact hskip.trans (cons hc r)

/-- two characters behind blanks -/
theorem of_skipSpace₂ (h : XmlPaths.skipSpace cs = c :: d :: r) (hc : Passable c)
    (hd : Passable d) : Kept cs r :=
  (of_skipSpace h hc).trans (cons hd r)

theorem of_skipSpace_eq (h : XmlPaths.skipSpace cs = r) : Kept cs r := by
  rw [← h]
  exact skipSpace cs

end Kept

/-! ## names, literals and numbers -/

theorem keeps_takeNcName? : Keeps takeNcName? := by
  intro cs n r h
  rw [takeNcName?.eq_def] at h
  split at h
  · exact absurd h (by simp)
  · next c cs =>
    split at h
    · next hc =>
      obtain ⟨-, rfl⟩ : _ ∧ cs.dropWhile isNameChar = r := by simpa using h
      exact (Kept.cons (passable_of_isNameChar (isNameChar_of_isNameStart hc)) cs).trans
        (Kept.dropWhile (fun _ => passable_of_isNameChar) cs)
    · exact absurd h (by simp)

/-- From the inside of a literal up to its end nothing stands outside of literals. -/
theorem unquoted_of_takeUntilQuote? {q : Char} {cs v r : List Char}
    (h : takeUntilQuote? q cs = some (v, r)) : unquoted (some q) cs = unquoted none r := by
  rw [takeUntilQuote?.eq_def] at h
  split at h
  · exact absurd h (by simp)
  · next d rest hdrop =>
    obtain ⟨-, rfl⟩ : _ ∧ rest = r := by simpa using h
    have hd : d = q := by
      have hstop := stops_dropWhile (p := (· != q)) cs d (by rw [hdrop]; rfl)
      simpa using hstop
    have hnot : q ∉ cs.takeWhile (· != q) := by
      intro hq
      have hne := List.all_eq_true.1 (List.all_takeWhile (p := (· != q)) (l := cs)) q hq
      exact absurd hne (by simp)
    have hsplit := List.takeWhile_append_dropWhile (p := (· != q)) (l := cs)
    rw [hdrop, hd] at hsplit
    rw [← hsplit]
    exact unquoted_content hnot rest

theorem keeps_takeLiteral? : Keeps takeLiteral? := by
  intro cs v r h c hc _
  rw [takeLiteral?.eq_def] at h
  split at h
  · rw [← unquoted_of_takeUntilQuote? h]
    simpa [unquoted] using hc
  · rw [← unquoted_of_takeUntilQuote? h]
    simpa [unquoted] using hc
  · exact absurd h (by simp)

theorem kept_takeExponent (cs : List Char) : Kept cs (Number.takeExponent cs).2 := by
  have hdigits : ∀ r : List Char, Kept r (r.dropWhile Char.isDigit) :=
    Kept.dropWhile fun _ => passable_of_isDigit
  rw [Number.takeExponent.eq_def]
  split
  · next c cs =>
    split
    · next hc =>
      have he : Passable c := by
        rw [Bool.or_eq_true, decide_eq_true_eq, decide_eq_true_eq] at hc
        rcases hc with rfl | rfl <;> decide
      split
      · next r => exact (Kept.cons he _).trans ((Kept.cons (by decide) r).trans (hdigits r))
      · next r => exact (Kept.cons he _).trans ((Kept.cons (by decide) r).trans (hdigits r))
      · exact (Kept.cons he _).trans (hdigits _)
    · exact Kept.refl _
  · exact Kept.refl _

theorem keeps_takeNumber? : Keeps Number.takeNumber? := by
  intro cs n r h
  have hdigits : ∀ r : List Char, Kept r (r.dropWhile Char.isDigit) :=
    Kept.dropWhile fun _ => passable_of_isDigit
  have hwhole := hdigits cs
  rw [Number.takeNumber?.eq_def] at h
  dsimp only at h
  split at h
  · next r' hr =>
    rw [hr] at hwhole
    split at h
    · exact absurd h (by simp)
    · obtain ⟨-, rfl⟩ := Prod.mk.inj (Option.some.inj h)
      exact hwhole.trans ((Kept.cons (by decide) r').trans
        ((hdigits r').trans (kept_takeExponent _)))
  · split at h
    · exact absurd h (by simp)
    · obtain ⟨-, rfl⟩ := Prod.mk.inj (Option.some.inj h)
      exact hwhole.trans (kept_takeExponent _)

/-! ## location paths -/

/-- what the test of a type ends with -/
def closing? (t : NodeTest) (cs : List Char) : Option (NodeTest × List Char) :=
  match skipSpace cs with
  | ')' :: r => some (t, r)
  | _ => none

theorem keeps_closing? (t : NodeTest) : Keeps (closing? t) := by
  intro cs t' r h
  rw [closing?] at h
  split at h
  · next r' hr =>
    obtain ⟨-, rfl⟩ := Prod.mk.inj (Option.some.inj h)
    exact Kept.of_skipSpace hr (by decide)
  · exact absurd h (by simp)

theorem keeps_nodeTypeTest? (name : List Char) : Keeps (nodeTypeTest? name) := by
  intro cs t r h
  rw [nodeTypeTest?.eq_def] at h
  split at h
  · exact keeps_closing? _ h
  · split at h
    · exact keeps_closing? _ h
    · split at h
      · exact keeps_closing? _ h
      · split at h
        · split at h
          · next r' hr =>
            obtain ⟨-, rfl⟩ := Prod.mk.inj (Option.some.inj h)
            exact Kept.of_skipSpace hr (by decide)
          · next hr =>
            split at h
            · next hliteral =>
              exact (Kept.skipSpace cs).trans
                ((keeps_takeLiteral? hliteral).trans (keeps_closing? _ h))
            · exact absurd h (by simp)
        · exact absurd h (by simp)

theorem keeps_namedTest? (name : List Char) : Keeps (namedTest? name) := by
  intro cs t r h
  rw [namedTest?.eq_def] at h
  split at h
  · next r' hr => exact (Kept.of_skipSpace hr (by decide)).trans (keeps_nodeTypeTest? name h)
  · split at h
    · obtain ⟨-, rfl⟩ := Prod.mk.inj (Option.some.inj h)
      exact (Kept.cons (by decide) _).trans (Kept.cons (by decide) _)
    · split at h
      · next hname =>
        obtain ⟨-, rfl⟩ := Prod.mk.inj (Option.some.inj h)
        exact (Kept.cons (by decide) _).trans (keeps_takeNcName? hname)
      · exact absurd h (by simp)
    · obtain ⟨-, rfl⟩ := Prod.mk.inj (Option.some.inj h)
      exact Kept.refl _

theorem keeps_nodeTest? : Keeps nodeTest? := by
  intro cs t r h
  rw [nodeTest?.eq_def] at h
  split at h
  · next r' hr =>
    obtain ⟨-, rfl⟩ := Prod.mk.inj (Option.some.inj h)
    exact Kept.of_skipSpace hr (by decide)
  · split at h
    · next hname =>
      exact (Kept.skipSpace cs).trans ((keeps_takeNcName? hname).trans (keeps_namedTest? _ h))
    · exact absurd h (by simp)

theorem keeps_axisAndTest? : Keeps axisAndTest? := by
  intro cs x r h
  rw [axisAndTest?.eq_def] at h
  split at h
  · next r' =>
    obtain ⟨y, hy, hr⟩ := Option.map_eq_some_iff.1 h
    obtain ⟨-, rfl⟩ := Prod.mk.inj hr
    exact (Kept.cons (by decide) r').trans (keeps_nodeTest? hy)
  · split at h
    · obtain ⟨y, hy, hr⟩ := Option.map_eq_some_iff.1 h
      obtain ⟨-, rfl⟩ := Prod.mk.inj hr
      exact keeps_nodeTest? hy
    · next hname =>
      split at h
      · next hskip =>
        obtain ⟨y, hy, hr⟩ := Option.map_eq_some_iff.1 h
        obtain ⟨-, rfl⟩ := Prod.mk.inj hr
        exact (keeps_takeNcName? hname).trans
          ((Kept.of_skipSpace₂ hskip (by decide) (by decide)).trans (keeps_nodeTest? hy))
      · obtain ⟨y, hy, hr⟩ := Option.map_eq_some_iff.1 h
        obtain ⟨-, rfl⟩ := Prod.mk.inj hr
        exact (keeps_takeNcName? hname).trans (keeps_namedTest? _ hy)

section
variable {expr : Reader Expr} (he : Keeps expr)
include he

theorem keeps_predicates? (n : Nat) : Keeps (predicates? expr n) := by
  induction n with
  | zero =>
    intro cs es r h
    obtain ⟨-, rfl⟩ := Prod.mk.inj (Option.some.inj h)
    exact Kept.refl _
  | succ n ih =>
    intro cs es r h
    rw [predicates?.eq_def] at h
    dsimp only at h
    split at h
    · next r' hr =>
      split at h
      · exact absurd h (by simp)
      · next hexpr =>
        split at h
        · next hclose =>
          obtain ⟨y, hy, hr'⟩ := Option.map_eq_some_iff.1 h
          obtain ⟨-, rfl⟩ := Prod.mk.inj hr'
          exact (Kept.of_skipSpace hr (by decide)).trans ((he hexpr).trans
            ((Kept.of_skipSpace hclose (by decide)).trans (ih hy)))
        · exact absurd h (by simp)
    · obtain ⟨-, rfl⟩ := Prod.mk.inj (Option.some.inj h)
      exact Kept.refl _

theorem keeps_step? (source : Expr) : Keeps (step? expr source) := by
  intro cs e r h
  rw [step?.eq_def] at h
  split at h
  · next r' hr =>
    obtain ⟨-, rfl⟩ := Prod.mk.inj (Option.some.inj h)
    exact Kept.of_skipSpace₂ hr (by decide) (by decide)
  · next r' _ hr =>
    obtain ⟨-, rfl⟩ := Prod.mk.inj (Option.some.inj h)
    exact Kept.of_skipSpace hr (by decide)
  · split at h
    · exact absurd h (by simp)
    · next htest =>
      obtain ⟨y, hy, hr⟩ := Option.map_eq_some_iff.1 h
      obtain ⟨-, rfl⟩ := Prod.mk.inj hr
      exact (Kept.skipSpace cs).trans
        ((keeps_axisAndTest? htest).trans (keeps_predicates? he _ hy))

theorem keeps_moreSteps? (n : Nat) (e : Expr) : Keeps (moreSteps? expr n e) := by
  induction n generalizing e with
  | zero =>
    intro cs e' r h
    obtain ⟨-, rfl⟩ := Prod.mk.inj (Option.some.inj h)
    exact Kept.refl _
  | succ n ih =>
    intro cs e' r h
    rw [moreSteps?.eq_def] at h
    dsimp only at h
    split at h
    · next hskip =>
      split at h
      · next hstep =>
        exact (Kept.of_skipSpace₂ hskip (by decide) (by decide)).trans
          ((keeps_step? he _ hstep).trans (ih _ h))
      · exact absurd h (by simp)
    · next hskip =>
      split at h
      · next hstep =>
        exact (Kept.of_skipSpace hskip (by decide)).trans
          ((keeps_step? he _ hstep).trans (ih _ h))
      · exact absurd h (by simp)
    · obtain ⟨-, rfl⟩ := Prod.mk.inj (Option.some.inj h)
      exact Kept.refl _

/-- what the slashes in front of a path are read as -/
def leadingSlashes (source : Expr) (cs : List Char) : Expr × List Char :=
  match skipSpace cs with
  | '/' :: '/' :: r => (source.descendants, r)
  | '/' :: r => (source, r)
  | r => (source, r)

omit he in
theorem kept_leadingSlashes (source : Expr) (cs : List Char) :
    Kept cs (leadingSlashes source cs).2 := by
  rw [leadingSlashes]
  split
  · next hskip => exact Kept.of_skipSpace₂ hskip (by decide) (by decide)
  · next hskip => exact Kept.of_skipSpace hskip (by decide)
  · exact Kept.skipSpace cs

theorem keeps_relativePath? (source : Expr) : Keeps (relativePath? expr source) := by
  intro cs e r h
  rw [relativePath?.eq_def] at h
  have hlead := kept_leadingSlashes source cs
  dsimp only at h
  split at h
  · next hstep => exact hlead.trans ((keeps_step? he _ hstep).trans (keeps_moreSteps? he _ _ h))
  · exact absurd h (by simp)

theorem keeps_absolutePath? (n : Nat) (e : Expr) : Keeps (absolutePath? expr n e) := by
  induction n generalizing e with
  | zero =>
    intro cs e' r h
    obtain ⟨-, rfl⟩ := Prod.mk.inj (Option.some.inj h)
    exact Kept.refl _
  | succ n ih =>
    intro cs e' r h
    rw [absolutePath?.eq_def] at h
    dsimp only at h
    split at h
    · next hskip =>
      split at h
      · next hpath =>
        exact (Kept.of_skipSpace₂ hskip (by decide) (by decide)).trans
          ((keeps_relativePath? he _ hpath).trans (ih _ h))
      · exact absurd h (by simp)
    · next hskip =>
      have hslash := Kept.of_skipSpace hskip (by decide)
      split at h
      · split at h
        · next hpath => exact hslash.trans ((keeps_relativePath? he _ hpath).trans (ih _ h))
        · exact absurd h (by simp)
      · exact hslash.trans (ih _ h)
    · obtain ⟨-, rfl⟩ := Prod.mk.inj (Option.some.inj h)
      exact Kept.refl _

theorem keeps_locationPath? : Keeps (locationPath? expr) := by
  intro cs e r h
  rw [locationPath?.eq_def] at h
  have hskip := Kept.skipSpace cs
  split at h
  · next r' hr =>
    rw [hr] at hskip
    exact hskip.trans (keeps_absolutePath? he _ _ h)
  · exact hskip.trans (keeps_relativePath? he _ h)

/-! ## primary expressions -/

theorem keeps_arguments? (n : Nat) : Keeps (arguments? expr n) := by
  induction n with
  | zero =>
    intro cs es r h
    exact absurd h (by simp [arguments?])
  | succ n ih =>
    intro cs es r h
    rw [arguments?.eq_def] at h
    dsimp only at h
    have hskip := Kept.skipSpace cs
    split at h
    · next hr =>
      obtain ⟨-, rfl⟩ := Prod.mk.inj (Option.some.inj h)
      rwa [hr] at hskip
    · split at h
      · exact absurd h (by simp)
      · next hexpr =>
        have hfirst := hskip.trans (he hexpr)
        split at h
        · next hclose =>
          obtain ⟨-, rfl⟩ := Prod.mk.inj (Option.some.inj h)
          exact hfirst.trans (Kept.of_skipSpace hclose (by decide))
        · next hcomma =>
          obtain ⟨y, hy, hr⟩ := Option.map_eq_some_iff.1 h
          obtain ⟨-, rfl⟩ := Prod.mk.inj hr
          exact hfirst.trans ((Kept.of_skipSpace hcomma (by decide)).trans (ih hy))
        · exact absurd h (by simp)

/-- what is read behind the name of a function -/
def callOf? (expr : Reader Expr) (p : Option String) (name : List Char) : Reader Expr := fun cs =>
  match skipSpace cs with
  | '(' :: r =>
    match skipSpace r with
    | ')' :: rest => some (.call p (String.ofList name) [], rest)
    | r' =>
      (arguments? expr (r'.length + 1) r').map fun (es, rest) =>
        (.call p (String.ofList name) es, rest)
  | _ => none

theorem keeps_callOf? (p : Option String) (name : List Char) : Keeps (callOf? expr p name) := by
  intro cs e r h
  rw [callOf?] at h
  split at h
  · next r' hr =>
    have hlead := Kept.of_skipSpace hr (by decide)
    split at h
    · next hclose =>
      obtain ⟨-, rfl⟩ := Prod.mk.inj (Option.some.inj h)
      exact hlead.trans (Kept.of_skipSpace hclose (by decide))
    · obtain ⟨y, hy, hr'⟩ := Option.map_eq_some_iff.1 h
      obtain ⟨-, rfl⟩ := Prod.mk.inj hr'
      exact hlead.trans ((Kept.skipSpace r').trans (keeps_arguments? he _ hy))
  · exact absurd h (by simp)

theorem keeps_call? : Keeps (call? expr) := by
  intro cs e r h
  rw [call?.eq_def] at h
  dsimp only at h
  split at h
  · exact absurd h (by simp)
  · next hname =>
    split at h
    · next hlocal =>
      exact (keeps_takeNcName? hname).trans ((Kept.cons (by decide) _).trans
        ((keeps_takeNcName? hlocal).trans (keeps_callOf? he _ _ h)))
    · exact absurd h (by simp)
  · next hname => exact (keeps_takeNcName? hname).trans (keeps_callOf? he _ _ h)

theorem keeps_primary? : Keeps (primary? expr) := by
  intro cs e r h
  rw [primary?.eq_def] at h
  dsimp only at h
  split at h
  · next r' =>
    have hdollar : Kept ('$' :: r') r' := Kept.cons (by decide) r'
    split at h
    · exact absurd h (by simp)
    · next hname =>
      obtain ⟨y, hy, hr⟩ := Option.map_eq_some_iff.1 h
      obtain ⟨-, rfl⟩ := Prod.mk.inj hr
      exact hdollar.trans ((keeps_takeNcName? hname).trans
        ((Kept.cons (by decide) _).trans (keeps_takeNcName? hy)))
    · next hname =>
      obtain ⟨-, rfl⟩ := Prod.mk.inj (Option.some.inj h)
      exact hdollar.trans (keeps_takeNcName? hname)
  · next r' =>
    split at h
    · next hexpr =>
      split at h
      · next hclose =>
        obtain ⟨-, rfl⟩ := Prod.mk.inj (Option.some.inj h)
        exact (Kept.cons (by decide) r').trans
          ((he hexpr).trans (Kept.of_skipSpace hclose (by decide)))
      · exact absurd h (by simp)
    · exact absurd h (by simp)
  · obtain ⟨y, hy, hr⟩ := Option.map_eq_some_iff.1 h
    obtain ⟨-, rfl⟩ := Prod.mk.inj hr
    exact keeps_takeLiteral? hy
  · obtain ⟨y, hy, hr⟩ := Option.map_eq_some_iff.1 h
    obtain ⟨-, rfl⟩ := Prod.mk.inj hr
    exact keeps_takeLiteral? hy
  · split at h
    · obtain ⟨y, hy, hr⟩ := Option.map_eq_some_iff.1 h
      obtain ⟨-, rfl⟩ := Prod.mk.inj hr
      exact keeps_takeNumber? hy
    · exact keeps_call? he h
  · exact absurd h (by simp)

theorem keeps_pathExpr? : Keeps (pathExpr? expr) := by
  intro cs e r h
  rw [pathExpr?.eq_def] at h
  dsimp only at h
  have hskip := Kept.skipSpace cs
  split at h
  · split at h
    · exact absurd h (by simp)
    · next hprimary =>
      have hlead := hskip.trans (keeps_primary? he hprimary)
      split at h
      · exact absurd h (by simp)
      · next hpredicates =>
        have hfilter := hlead.trans (keeps_predicates? he _ hpredicates)
        split at h
        · next hr =>
          exact hfilter.trans ((Kept.of_skipSpace₂ hr (by decide) (by decide)).trans
            (keeps_relativePath? he _ h))
        · next hr =>
          exact hfilter.trans ((Kept.of_skipSpace_eq hr).trans (keeps_relativePath? he _ h))
        · obtain ⟨-, rfl⟩ := Prod.mk.inj (Option.some.inj h)
          exact hfilter
  · exact hskip.trans (keeps_locationPath? he h)

end

/-! ## operators -/

/-- a reader of operators that only passes over characters of their spellings -/
def KeepsOperator (operator : Operator) : Prop :=
  ∀ ⦃cs op r⦄, operator cs = some (op, r) → Kept cs r

theorem keeps_unionOp : KeepsOperator unionOp := by
  intro cs op r h
  rw [unionOp.eq_def] at h
  split at h
  · obtain ⟨-, rfl⟩ := Prod.mk.inj (Option.some.inj h)
    exact Kept.cons (by decide) _
  · exact absurd h (by simp)

theorem keeps_multiplicativeOp : KeepsOperator multiplicativeOp := by
  intro cs op r h
  rw [multiplicativeOp.eq_def] at h
  split at h
  · obtain ⟨-, rfl⟩ := Prod.mk.inj (Option.some.inj h)
    exact Kept.cons (by decide) _
  · obtain ⟨-, rfl⟩ := Prod.mk.inj (Option.some.inj h)
    exact Kept.append (w := ['d', 'i', 'v']) (by decide) _
  · obtain ⟨-, rfl⟩ := Prod.mk.inj (Option.some.inj h)
    exact Kept.append (w := ['m', 'o', 'd']) (by decide) _
  · exact absurd h (by simp)

theorem keeps_additiveOp : KeepsOperator additiveOp := by
  intro cs op r h
  rw [additiveOp.eq_def] at h
  split at h
  · obtain ⟨-, rfl⟩ := Prod.mk.inj (Option.some.inj h)
    exact Kept.cons (by decide) _
  · obtain ⟨-, rfl⟩ := Prod.mk.inj (Option.some.inj h)
    exact Kept.cons (by decide) _
  · exact absurd h (by simp)

theorem keeps_relationalOp : KeepsOperator relationalOp := by
  intro cs op r h
  rw [relationalOp.eq_def] at h
  split at h
  · obtain ⟨-, rfl⟩ := Prod.mk.inj (Option.some.inj h)
    exact Kept.append (w := ['<', '=']) (by decide) _
  · obtain ⟨-, rfl⟩ := Prod.mk.inj (Option.some.inj h)
    exact Kept.cons (by decide) _
  · obtain ⟨-, rfl⟩ := Prod.mk.inj (Option.some.inj h)
    exact Kept.append (w := ['>', '=']) (by decide) _
  · obtain ⟨-, rfl⟩ := Prod.mk.inj (Option.some.inj h)
    exact Kept.cons (by decide) _
  · exact absurd h (by simp)

theorem keeps_equalityOp : KeepsOperator equalityOp := by
  intro cs op r h
  rw [equalityOp.eq_def] at h
  split at h
  · obtain ⟨-, rfl⟩ := Prod.mk.inj (Option.some.inj h)
    exact Kept.cons (by decide) _
  · obtain ⟨-, rfl⟩ := Prod.mk.inj (Option.some.inj h)
    exact Kept.append (w := ['!', '=']) (by decide) _
  · exact absurd h (by simp)

theorem keeps_andOp : KeepsOperator andOp := by
  intro cs op r h
  rw [andOp.eq_def] at h
  split at h
  · obtain ⟨-, rfl⟩ := Prod.mk.inj (Option.some.inj h)
    exact Kept.append (w := ['a', 'n', 'd']) (by decide) _
  · exact absurd h (by simp)

theorem keeps_orOp : KeepsOperator orOp := by
  intro cs op r h
  rw [orOp.eq_def] at h
  split at h
  · obtain ⟨-, rfl⟩ := Prod.mk.inj (Option.some.inj h)
    exact Kept.append (w := ['o', 'r']) (by decide) _
  · exact absurd h (by simp)

section
variable {operand : Reader Expr} (hoperand : Keeps operand)
include hoperand

theorem keeps_chain? {operator : Operator} (hoperator : KeepsOperator operator) (n : Nat)
    (e : Expr) : Keeps (chain? operand operator n e) := by
  induction n generalizing e with
  | zero =>
    intro cs e' r h
    obtain ⟨-, rfl⟩ := Prod.mk.inj (Option.some.inj h)
    exact Kept.refl _
  | succ n ih =>
    intro cs e' r h
    rw [chain?.eq_def] at h
    dsimp only at h
    split at h
    · obtain ⟨-, rfl⟩ := Prod.mk.inj (Option.some.inj h)
      exact Kept.refl _
    · next hop =>
      split at h
      · next hnext =>
        exact (Kept.skipSpace cs).trans ((hoperator hop).trans ((hoperand hnext).trans (ih _ h)))
      · exact absurd h (by simp)

theorem keeps_leftAssoc {operator : Operator} (hoperator : KeepsOperator operator) :
    Keeps (leftAssoc operand operator) := by
  intro cs e r h
  rw [leftAssoc.eq_def] at h
  split at h
  · next hfirst => exact (hoperand hfirst).trans (keeps_chain? hoperand hoperator _ _ h)
  · exact absurd h (by simp)

theorem keeps_signed? (n : Nat) : Keeps (signed? operand n) := by
  induction n with
  | zero => exact hoperand
  | succ n ih =>
    intro cs e r h
    rw [signed?.eq_def] at h
    dsimp only at h
    split at h
    · next hsign =>
      obtain ⟨y, hy, hr⟩ := Option.map_eq_some_iff.1 h
      obtain ⟨-, rfl⟩ := Prod.mk.inj hr
      exact (Kept.of_skipSpace hsign (by decide)).trans (ih hy)
    · exact hoperand h

end

/-! ## whole expressions -/

theorem keeps_expressionAt (depth : Nat) : Keeps (expressionAt depth) := by
  induction depth with
  | zero =>
    intro cs e r h
    exact absurd h (by simp [expressionAt])
  | succ depth ih =>
    have hunion := keeps_leftAssoc (keeps_pathExpr? ih) keeps_unionOp
    have hunary : Keeps (unaryExpr (expressionAt depth)) := fun _ _ _ h => keeps_signed? hunion _ h
    have hmultiplicative := keeps_leftAssoc hunary keeps_multiplicativeOp
    have hadditive := keeps_leftAssoc hmultiplicative keeps_additiveOp
    have hrelational := keeps_leftAssoc hadditive keeps_relationalOp
    have hequality := keeps_leftAssoc hrelational keeps_equalityOp
    exact keeps_leftAssoc (keeps_leftAssoc hequality keeps_andOp) keeps_orOp

/-- **No expression has a foreign blank outside of its literals.** -/
theorem not_isForeign_of_parseChars? {cs : List Char} {e : Expr} (h : parseChars? cs = some e) :
    ∀ c ∈ unquoted none cs, isForeign c = false := by
  rw [parseChars?] at h
  split at h
  · next r hread =>
    split at h
    · next hend =>
      intro c hc
      rw [Bool.eq_false_iff]
      intro hforeign
      have hrest := (keeps_expressionAt _ hread).trans (Kept.skipSpace r) c hc hforeign
      rw [List.isEmpty_iff.1 hend] at hrest
      exact absurd hrest (by simp [unquoted])
    · exact absurd h (by simp)
  · exact absurd h (by simp)

end XmlPaths.XPath

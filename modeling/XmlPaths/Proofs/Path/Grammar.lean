import XmlPaths.Path.Lexeme

/-!
# The grammar of path expressions

What a path is, said without a reader: which texts spell which lists of steps.  The grammar is
that of an alphabet, which says what blanks, names and the contents of literals are made of, so
that expressions with fewer kinds of characters have the same grammar.

* `Alphabet`            the classes of characters; `Alphabet.full` is that of path expressions;
* `Alphabet.Blanks`, `Alphabet.IsName`   runs of blanks, names;
* `Alphabet.SpellsLiteral`, ... , `Alphabet.SpellsPath`   the texts of literals, comparisons,
                        clauses, steps and paths, each with what it stands for;
* `Alphabet.Spells`     a path between blanks.
-/

namespace XmlPaths

/-- what blanks, names and the contents of literals are made of -/
structure Alphabet where
  blank : Char → Bool
  nameStart : Char → Bool
  nameChar : Char → Bool
  content : Char → Bool

/-- the alphabet of path expressions; any character may stand in a literal -/
def Alphabet.full : Alphabet := ⟨isBlank, isNameStart, isNameChar, fun _ => true⟩

namespace Alphabet

variable (A : Alphabet)

def Blanks (w : List Char) : Prop := ∀ c ∈ w, A.blank c = true

def IsName : List Char → Prop
  | [] => False
  | c :: cs => A.nameStart c = true ∧ ∀ d ∈ cs, A.nameChar d = true

/-- a text between two quotes of a kind, which can't occur inside -/
inductive SpellsLiteral : List Char → List Char → Prop where
  | intro {q : Char} {v : List Char} (hq : q = '\'' ∨ q = '"') (hv : q ∉ v)
      (hc : ∀ c ∈ v, A.content c = true) : SpellsLiteral v (q :: (v ++ [q]))

inductive SpellsComparison : Comparison → List Char → Prop where
  | present {n : List Char} (hn : A.IsName n) :
      SpellsComparison ⟨String.ofList n, none⟩ ('@' :: n)
  | demanded {n u w v l : List Char} (hn : A.IsName n) (hu : A.Blanks u) (hw : A.Blanks w)
      (hl : A.SpellsLiteral v l) :
      SpellsComparison ⟨String.ofList n, some (String.ofList v)⟩
        ('@' :: (n ++ (u ++ '=' :: (w ++ l))))

/-- further comparisons, each behind an `and` between blanks -/
inductive SpellsJoints : List Comparison → List Char → Prop where
  | nil : SpellsJoints [] []
  | cons {k : Comparison} {ks : List Comparison} {t ts u w : List Char}
      (hu : A.Blanks u) (hu' : u ≠ []) (hw : A.Blanks w) (hw' : w ≠ [])
      (hk : A.SpellsComparison k t) (hks : SpellsJoints ks ts) :
      SpellsJoints (k :: ks) (u ++ 'a' :: 'n' :: 'd' :: (w ++ (t ++ ts)))

inductive SpellsClause : List Comparison → List Char → Prop where
  | intro {k : Comparison} {ks : List Comparison} {t ts u w : List Char}
      (hu : A.Blanks u) (hk : A.SpellsComparison k t) (hks : A.SpellsJoints ks ts)
      (hw : A.Blanks w) :
      SpellsClause (k :: ks) ('[' :: (u ++ (t ++ (ts ++ (w ++ [']'])))))

inductive SpellsName : Option String → String → List Char → Prop where
  | bare {n : List Char} (hn : A.IsName n) : SpellsName none (String.ofList n) n
  | qualified {p n : List Char} (hp : A.IsName p) (hn : A.IsName n) :
      SpellsName (some (String.ofList p)) (String.ofList n) (p ++ ':' :: n)

/-- a clause behind blanks, or nothing -/
inductive SpellsDemands : List Comparison → List Char → Prop where
  | absent : SpellsDemands [] []
  | clause {ks : List Comparison} {u t : List Char} (hu : A.Blanks u)
      (ht : A.SpellsClause ks t) : SpellsDemands ks (u ++ t)

inductive SpellsStep : Step → List Char → Prop where
  | toAttribute {n : List Char} (hn : A.IsName n) :
      SpellsStep (.attribute (String.ofList n)) ('@' :: n)
  | toElement {p : Option String} {l : String} {ks : List Comparison} {q d : List Char}
      (hq : A.SpellsName p l q) (hd : A.SpellsDemands ks d) :
      SpellsStep (.element ⟨p, l, ks⟩) (q ++ d)

/-- Steps with slashes between them; only the last one may be to an attribute. -/
inductive SpellsPath : List Step → List Char → Prop where
  | last {s : Step} {t : List Char} (hs : A.SpellsStep s t) : SpellsPath [s] t
  | more {s : ChildStep} {rest : List Step} {t r u w : List Char}
      (hs : A.SpellsStep (.element s) t) (hu : A.Blanks u) (hw : A.Blanks w)
      (hr : SpellsPath rest r) :
      SpellsPath (.element s :: rest) (t ++ (u ++ '/' :: (w ++ r)))

/-- a path between blanks -/
def Spells (steps : List Step) (cs : List Char) : Prop :=
  ∃ u t w, A.Blanks u ∧ A.SpellsPath steps t ∧ A.Blanks w ∧ cs = u ++ (t ++ w)

variable {A}

theorem blanks_nil : A.Blanks [] := fun _ h => absurd h (by simp)

theorem blanks_cons {c : Char} {w : List Char} (hc : A.blank c = true) (hw : A.Blanks w) :
    A.Blanks (c :: w) := by
  intro d hd
  rcases List.mem_cons.1 hd with rfl | hd
  · exact hc
  · exact hw d hd

theorem Blanks.tail {c : Char} {w : List Char} (h : A.Blanks (c :: w)) : A.Blanks w :=
  fun d hd => h d (List.mem_cons_of_mem _ hd)

theorem IsName.exists_cons {n : List Char} (h : A.IsName n) :
    ∃ c cs, n = c :: cs ∧ A.nameStart c = true ∧ ∀ d ∈ cs, A.nameChar d = true := by
  cases n with
  | nil => exact False.elim h
  | cons c cs => exact ⟨c, cs, rfl, h.1, h.2⟩

theorem SpellsPath.steps_ne_nil {steps : List Step} {t : List Char} (h : A.SpellsPath steps t) :
    steps ≠ [] := by
  cases h <;> simp

end Alphabet

theorem Step.exists_eq_element {s : Step} (h : s.isAttribute = false) : ∃ e, s = .element e := by
  cases s with
  | element e => exact ⟨e, rfl⟩
  | «attribute» n => exact absurd h (by simp [isAttribute])

end XmlPaths

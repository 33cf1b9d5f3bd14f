import XmlPaths.Path.Basic

/-!
# The canonical spelling of a path

Steps are joined with slashes and comparisons with ` and `; a value stands in single quotes unless
it has one itself, and nothing else is blank.  Two paths are taken for equal iff their canonical
spellings are.

* `Comparison.spell`, `ChildStep.spell`, `Step.spell`, `spellSteps`   the spellings as characters;
* `Path.render`   the spelling of a path.
-/

namespace XmlPaths

/-- the quote that delimits a value: a double one if the value has a single one -/
def quoteFor (value : List Char) : Char := if '\'' ∈ value then '"' else '\''

def Comparison.spell (c : Comparison) : List Char :=
  '@' :: c.name.toList ++
    match c.value with
    | none => []
    | some v => '=' :: quoteFor v.toList :: v.toList ++ [quoteFor v.toList]

/-- texts with another one between neighbours -/
def joinWith (sep : List Char) : List (List Char) → List Char
  | [] => []
  | [a] => a
  | a :: b :: rest => a ++ sep ++ joinWith sep (b :: rest)

/-- the clause that demands the comparisons, nothing if there are none -/
def spellClause : List Comparison → List Char
  | [] => []
  | cs@(_ :: _) => '[' :: joinWith " and ".toList (cs.map Comparison.spell) ++ [']']

/-- the prefix with its colon; an empty prefix is none -/
def spellPrefix : Option String → List Char
  | some p => if p.isEmpty then [] else p.toList ++ [':']
  | none => []

def ChildStep.spell (s : ChildStep) : List Char :=
  spellPrefix s.nsPrefix ++ s.localName.toList ++ spellClause s.comparisons

def Step.spell : Step → List Char
  | .element s => s.spell
  | .attribute n => '@' :: n.toList

def spellSteps (steps : List Step) : List Char := joinWith ['/'] (steps.map Step.spell)

def Comparison.render (c : Comparison) : String := String.ofList c.spell

def ChildStep.render (s : ChildStep) : String := String.ofList s.spell

def Step.render (s : Step) : String := String.ofList s.spell

def Path.render (p : Path) : String := String.ofList (spellSteps p.steps)

def Path.sameAs (p q : Path) : Bool := p.render == q.render

theorem joinWith_nil (sep : List Char) : joinWith sep [] = [] := rfl

theorem joinWith_singleton (sep a : List Char) : joinWith sep [a] = a := rfl

theorem joinWith_cons_cons (sep a b : List Char) (rest : List (List Char)) :
    joinWith sep (a :: b :: rest) = a ++ sep ++ joinWith sep (b :: rest) := rfl

theorem toList_render (p : Path) : p.render.toList = spellSteps p.steps := by
  simp [Path.render]

end XmlPaths

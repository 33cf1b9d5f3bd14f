import XmlPaths.Path.Error

/-!
# Reading path expressions

An expression is read step by step from the left; a step that was read is never reconsidered.

* `readStep?`       the step at the front of a text;
* `readSegments`    the steps of a whole text, or the fault that stops the reading;
* `Path.parse`      the path that an expression spells.
-/

namespace XmlPaths

/-- what was taken from the front of `cs` to leave `rest` -/
def consumed (cs rest : List Char) : List Char := cs.take (cs.length - rest.length)

def readName? (cs : List Char) : Option ((Option String × String) × List Char) :=
  match takeName? cs with
  | none => none
  | some (n, ':' :: r) =>
    match takeName? r with
    | some (l, r') => some ((some (String.ofList n), String.ofList l), r')
    | none => some ((none, String.ofList n), ':' :: r)
  | some (n, r) => some ((none, String.ofList n), r)

def readClause (cs : List Char) : List Comparison × List Char :=
  match (Pattern.seq .blanks .clause).rest? cs with
  | some r => (comparisonsIn (consumed cs r), r)
  | none => ([], cs)

/-- the step at the front of a text without leading blanks -/
def readBareStep? (cs : List Char) : Option (Step × List Char) :=
  match cs with
  | '@' :: r => (takeName? r).map fun (n, r') => (.attribute (String.ofList n), r')
  | cs =>
    (readName? cs).map fun ((p, l), r) =>
      let (comparisons, r') := readClause r
      (.element ⟨p, l, comparisons⟩, r')

/-- The step at the front of a text.  As many blanks as possible are skipped; where one of them
could also begin a name and there is no step behind all of them, the name begins there. -/
def readStep? (cs : List Char) : Option (Step × List Char) :=
  (Pattern.blanks.rests cs).findSome? readBareStep?

/-! ## a step takes at least one character -/

theorem length_lt_of_readName? {cs r : List Char} {x : Option String × String}
    (h : readName? cs = some (x, r)) : r.length < cs.length := by
  simp only [readName?] at h
  split at h
  · simp at h
  · next n r' hn =>
    have h1 := length_lt_of_takeName? hn
    simp only [List.length_cons] at h1
    split at h
    · next l r'' hl =>
      have h2 := length_lt_of_takeName? hl
      simp only [Option.some.injEq, Prod.mk.injEq] at h
      rw [← h.2]; omega
    · simp only [Option.some.injEq, Prod.mk.injEq] at h
      rw [← h.2, List.length_cons]; omega
  · next n r' _ hn =>
    have h1 := length_lt_of_takeName? hn
    simp only [Option.some.injEq, Prod.mk.injEq] at h
    rw [← h.2]; omega

theorem length_readClause_le (cs : List Char) : (readClause cs).2.length ≤ cs.length := by
  simp only [readClause]
  split
  · next r h => exact Pattern.length_le_of_rest? h
  · exact Nat.le_refl _

theorem length_lt_of_readBareStep? {cs r : List Char} {s : Step}
    (h : readBareStep? cs = some (s, r)) : r.length < cs.length := by
  simp only [readBareStep?] at h
  split at h
  · simp only [Option.map_eq_some_iff] at h
    obtain ⟨⟨n, r'⟩, hn, e⟩ := h
    have := length_lt_of_takeName? hn
    simp only [Prod.mk.injEq] at e
    simp only [List.length_cons, ← e.2]; omega
  · simp only [Option.map_eq_some_iff] at h
    obtain ⟨⟨⟨p, l⟩, r'⟩, hn, e⟩ := h
    have h1 := length_lt_of_readName? hn
    have h2 := length_readClause_le r'
    simp only [Prod.mk.injEq] at e
    rw [← e.2]; omega

theorem length_lt_of_readStep? {cs r : List Char} {s : Step}
    (h : readStep? cs = some (s, r)) : r.length < cs.length := by
  obtain ⟨m, hm, hs⟩ := List.exists_of_findSome?_eq_some h
  have h1 := Pattern.length_le_of_mem_rests hm
  have h2 := length_lt_of_readBareStep? hs
  omega

/-! ## whole expressions -/

/-- A fault of the expression and the place of it. -/
inductive Fault where
  | unsupported (feature : Feature)
  | malformed (fault : Malformed)
deriving DecidableEq

/-- The fault of a text that no step can be read from, of which `started` are the places that are
inspected for features, in turn.  The fault is placed at the text that follows the blanks. -/
def diagnose (text : List Char) : List (List Char) → Fault × List Char
  | [] =>
    match skipBlanks text with
    | [] => (.malformed .missingStep, [])
    | cs => (.malformed .unknownStep, cs)
  | start :: more =>
    match Feature.detect? start with
    | some f => (.unsupported f, skipBlanks start)
    | none => diagnose text more

/-- The segments of the text `cs`, before which stands the separator that begins with `source`. -/
def readSegments (source cs : List Char) : Except (Fault × List Char) (List Segment) :=
  match _h : readStep? cs with
  | none => .error (diagnose cs [cs])
  | some (step, rest) =>
    let segment : Segment := ⟨String.ofList (consumed source rest), step⟩
    match _hr : skipBlanks rest with
    | [] => .ok [segment]
    | c :: next =>
      if c = '/' then
        if step.isAttribute then .error (.malformed .attributeNotLast, c :: next)
        else
          match readSegments rest next with
          | .ok segments => .ok (segment :: segments)
          | .error e => .error e
      else .error (diagnose rest [cs, rest])
termination_by cs.length
decreasing_by
  have h1 := length_lt_of_readStep? _h
  have h2 := length_skipBlanks_le rest
  rw [_hr, List.length_cons] at h2
  omega

/-- the error about a fault, of which `rest` is the part of the expression from its place on -/
def Fault.toError (expression : String) (rest : List Char) : Fault → PathError
  | .unsupported f => .unsupported expression (expression.toList.length - rest.length) f
  | .malformed m => .malformed expression (expression.toList.length - rest.length) m

def isAbsolute (expression : String) : Bool := ['/'].isPrefixOf (skipBlanks expression.toList)

def refuseAbsolute (expression : String) : Except PathError Unit :=
  if isAbsolute expression then .error (.absolute expression) else .ok ()

def Path.parse (expression : String) : Except PathError Path :=
  if isAbsolute expression then .error (.absolute expression)
  else
    match readSegments expression.toList expression.toList with
    | .ok segments => .ok ⟨expression, segments⟩
    | .error (fault, rest) => .error (fault.toError expression rest)

end XmlPaths

import XmlPaths.Selection
import XmlPaths.Text.Reading
import XmlPaths.Text.Word

/-!
# Attributes of nodes

Attributes are looked up by their universal names.  An instruction has no attributes, but what
looks like some in its text is read as such; names are taken literally there.

* `pseudoAttributes`      what looks like attributes in the text of an instruction;
* `Forest.attributeNames`, `Forest.attributeValue?`   the attributes of a node;
* `Forest.assign`, `Forest.unassign`   sets or removes one;
* `AttributeHandle.name?`, `AttributeHandle.value`, `AttributeHandle.setValue`   the attribute that
  a handle refers to.
-/

namespace XmlPaths

/-- A word, an equals sign and a quoted value, behind blanks; blanks may surround the sign. -/
def takePseudoAttribute? (cs : List Char) : Option ((String × String) × List Char) :=
  match cs with
  | [] => none
  | c :: _ =>
    if !isBlank c then none
    else
      let r := skipBlanks cs
      let word := r.takeWhile isWord
      if word.isEmpty then none
      else
        match skipBlanks (r.dropWhile isWord) with
        | '=' :: r' =>
          (takeLiteral? (skipBlanks r')).map fun (v, rest) =>
            ((String.ofList word, String.ofList v), rest)
        | _ => none

/-- what looks like attributes in a text, of those with one name the last one -/
def pseudoAttributes (text : String) : Entries :=
  let item (cs : List Char) : Option (Option (String × String) × List Char) :=
    match takePseudoAttribute? cs, cs with
    | some (a, rest), _ => some (some a, rest)
    | none, _ :: rest => some (none, rest)
    | none, [] => none
  let found := (readMany item (' ' :: text.toList)).1.filterMap id
  found.foldl (fun es a => Entries.put es a.1 a.2) []

namespace Forest

def attributeNames (f : Forest) (x : NodeId) : List String :=
  match f.node? x with
  | some (.element _ e _ _) => e.attributes.map (·.name.universal)
  | some (.leaf _ (.instruction _ d) _) => (pseudoAttributes d).map Prod.fst
  | _ => []

def attributeValue? (f : Forest) (x : NodeId) (universalName : String) :
    Except Refusal (Option String) :=
  match f.node? x with
  | some (.element _ e _ _) =>
    match Name.ofUniversal? universalName with
    | some n => .ok (e.attribute? n)
    | none => .error .invalidName
  | some (.leaf _ (.instruction _ d) _) => .ok ((pseudoAttributes d).value? universalName)
  | _ => .ok none

def assign (f : Forest) (x : NodeId) (universalName value : String) : Except Refusal Forest :=
  if f.isLeaf x then .error .noAttributes
  else
    match Name.ofUniversal? universalName with
    | none => .error .invalidName
    | some n =>
      if !n.isValid then .error .invalidName
      else if !isMarkupText value then .error .illegalText
      else .ok (f.setAttribute x n value)

def unassign (f : Forest) (x : NodeId) (universalName : String) : Except Refusal Forest :=
  match f.attributeValue? x universalName with
  | .error r => .error r
  | .ok none => .error .missingAttribute
  | .ok (some _) =>
    match Name.ofUniversal? universalName with
    | some n => .ok (f.removeAttribute x n)
    | none => .error .invalidName

end Forest

namespace AttributeHandle

def name? (h : AttributeHandle) : Option Name :=
  (Name.ofUniversal? h.universalName).filter Name.isValid

def value (f : Forest) (h : AttributeHandle) : Except Refusal String :=
  match f.attributeValue? h.element h.universalName with
  | .error r => .error r
  | .ok none => .error .missingAttribute
  | .ok (some v) => .ok v

/-- sets the attribute; anything but a text is refused -/
def setValue (f : Forest) (h : AttributeHandle) (value : Option String) : Except Refusal Forest :=
  match value with
  | none => .error .notAText
  | some v => f.assign h.element h.universalName v

end AttributeHandle

end XmlPaths

import XmlPaths.Markup.Token
import XmlPaths.Tree.Node
import XmlPaths.Tree.Uri

/-!
# Names in their scope

The namespaces that prefixes stand for are declared by attributes of tags.

* `splitName?`        the prefix and the local part of a name;
* `Bindings.declare?`   the bindings within a tag;
* `Bindings.element?`   the element that a start tag describes.
-/

namespace XmlPaths.Markup

/-- the namespaces of prefixes, the innermost ones first; the default namespace has no prefix -/
abbrev Bindings := List (Option String × String)

def declarationSpace : String := "http://www.w3.org/2000/xmlns/"

def splitName? (name : String) : Option (Option String × String) :=
  match splitOn? [':'] name.toList with
  | none => some (none, name)
  | some (p, l) =>
    if isNcNameChars p && isNcNameChars l then some (some (String.ofList p), String.ofList l)
    else none

/-- the prefix that an attribute declares a namespace for, none for the default namespace -/
def declared? : Option String × String → Option (Option String)
  | (none, "xmlns") => some none
  | (some "xmlns", p) => some (some p)
  | _ => none

namespace Bindings

/-- the namespace of a prefix; without a prefix or with an empty namespace there is none -/
def space? (bs : Bindings) : Option String → Option (Option String)
  | some "xml" => some (some xmlSpace)
  | some p => (bs.lookup (some p)).map some
  | none => some ((bs.lookup none).filter (!·.isEmpty))

def admits (nsPrefix : Option String) (uri : String) : Bool :=
  uri != declarationSpace && Uri.isUriReference uri &&
    match nsPrefix with
    | none => uri != xmlSpace
    | some "xml" => uri == xmlSpace
    | some "xmlns" => false
    | some _ => uri != xmlSpace && !uri.isEmpty

def declare? (bs : Bindings) : List ((Option String × String) × String) → Option Bindings
  | [] => some bs
  | (name, value) :: rest =>
    match declared? name with
    | none => declare? bs rest
    | some p => if admits p value then (declare? bs rest).map ((p, value) :: ·) else none

/-- an attribute; those without prefix are in no namespace -/
def attribute? (bs : Bindings) : (Option String × String) × String → Option Attribute
  | ((none, l), v) => some ⟨⟨none, l⟩, v⟩
  | ((some p, l), v) => (bs.space? (some p)).map fun s => ⟨⟨s, l⟩, v⟩

/-- the element of a start tag along with the bindings within it; no two attributes have one name -/
def element? (bs : Bindings) (name : String) (attributes : List (String × String)) :
    Option (Element × Bindings) := do
  if !(attributes.map Prod.fst).Nodup then none
  let named ← attributes.mapM fun (n, v) => (splitName? n).map (·, v)
  let bs ← bs.declare? named
  let attributes ← (named.filter fun a => (declared? a.1).isNone).mapM bs.attribute?
  if !(attributes.map Attribute.name).Nodup then none
  let (p, l) ← splitName? name
  let space ← bs.space? p
  pure (⟨⟨space, l⟩, attributes, none⟩, bs)

end Bindings

end XmlPaths.Markup

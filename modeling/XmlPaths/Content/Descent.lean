import XmlPaths.Selection

/-!
# Descending by names

* `Tag`                  the elements that a universal name stands for, which may have wildcards;
* `Forest.childrenOf`    the children of a node that a name stands for;
* `Forest.descend`       the elements that are reached from some nodes along names.
-/

namespace XmlPaths

inductive SpaceTest where
  | any
  | exactly (space : Option String)
deriving DecidableEq

/-- which elements a name stands for; without a local name any one will do -/
structure Tag where
  space : SpaceTest
  localName : Option String
deriving DecidableEq

/-- the universal form of a local name in a namespace; an empty namespace is none -/
def universalIn (space : Option String) (localName : String) : String :=
  match space with
  | some uri => if uri.isEmpty then localName else Name.universal ⟨some uri, localName⟩
  | none => localName

/-- The elements that a universal name stands for.  An asterisk as local name stands for all names,
and alone for all namespaces as well; as namespace it stands for any and for none. -/
def Tag.ofUniversal? (s : String) : Option Tag :=
  if s = "*" then some ⟨.any, none⟩
  else
    (Name.ofUniversal? s).map fun n =>
      ⟨if n.space = some "*" then .any else .exactly n.space,
       if n.localName = "*" then none else some n.localName⟩

def SpaceTest.admits : SpaceTest → Option String → Bool
  | .any, _ => true
  | .exactly s, t => s == t

def Tag.admits (t : Tag) (n : Name) : Bool :=
  t.space.admits n.space && t.localName.all (· == n.localName)

namespace Forest

def childrenOf (f : Forest) (universalName : String) (x : NodeId) :
    Except Refusal (List NodeId) :=
  match Tag.ofUniversal? universalName with
  | none => .error .invalidName
  | some t =>
    .ok (((f.node? x).elim [] Node.children).filterMap fun n =>
      match n.element? with
      | some e => if t.admits e.name then some n.id else none
      | none => none)

def childrenOfAll (f : Forest) (universalName : String) : List NodeId → Except Refusal (List NodeId)
  | [] => .ok []
  | x :: xs =>
    match f.childrenOf universalName x with
    | .error r => .error r
    | .ok ys =>
      match f.childrenOfAll universalName xs with
      | .error r => .error r
      | .ok zs => .ok (ys ++ zs)

/-- the elements reached from nodes by one level of children for each local name -/
def descendFrom (f : Forest) (space : Option String) (xs : List NodeId) :
    List String → Except Refusal (List NodeId)
  | [] => .ok xs
  | l :: ls =>
    match f.childrenOfAll (universalIn space l) xs with
    | .error r => .error r
    | .ok ys => f.descendFrom space ys ls

/-- the elements reached from nodes along local names; without any name nothing is reached -/
def descend (f : Forest) (space : Option String) (xs : List NodeId) (names : List String) :
    Except Refusal (List NodeId) :=
  if names.isEmpty then .ok [] else f.descendFrom space xs names

/-- The elements reached in a tree with the given root.  The first name has to be that of the root,
without any wildcards. -/
def descendTree (f : Forest) (space : Option String) (root : NodeId) :
    List String → Except Refusal (List NodeId)
  | [] => .ok []
  | head :: names =>
    let isNamed := ((f.node? root).bind Node.element?).any fun e =>
      e.name.universal == universalIn space head
    f.descendFrom space (if isNamed then [root] else []) names

theorem descend_nil (f : Forest) (space : Option String) (xs : List NodeId) :
    f.descend space xs [] = .ok [] := rfl

end Forest

end XmlPaths

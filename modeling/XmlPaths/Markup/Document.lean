import XmlPaths.Markup.Encoding
import XmlPaths.Markup.Scope

/-!
# Documents

* `Blanks`           what is done with the blanks between tags;
* `Open`             an element whose end tag is still to come;
* `Reading.take?`    takes in one token;
* `rootOf?`          the root that tokens make up;
* `Parser`, `Parser.basic`   parsers of documents, and the one that is told here;
* `Parser.ofText?`, `Parser.ofBytes?`   the root of a document.

Blanks between tags can be dropped.  A piece of blank text is dropped if it stands between two
tags, is not all that the element holds, and no other text has been seen in the element; an
attribute `xml:space` says otherwise or confirms it for all that is in the element.
-/

namespace XmlPaths.Markup

inductive Blanks where
  | keep
  | drop
deriving DecidableEq

/-- what is known about the blanks in an element -/
inductive Spacing where
  | unknown
  | layout
  | content
  | mixed
deriving DecidableEq

/-- the spacing in a child, whose attributes don't tell it; text in the parent doesn't matter -/
def Spacing.inherited : Spacing → Spacing
  | .mixed => .unknown
  | s => s

/-- the spacing that an attribute `xml:space` asks for -/
def spacingOf (e : Element) (outer : Spacing) : Spacing :=
  match e.attribute? ⟨some xmlSpace, "space"⟩ with
  | some "default" => .layout
  | some "preserve" => .content
  | _ => outer.inherited

/-- an element whose end tag is still to come, with its children so far, the last one first -/
structure Open where
  tag : String
  element : Element
  bindings : Bindings
  spacing : Spacing
  children : List Node

namespace Open

def extend (old : Option String) (new : List Char) : Option String :=
  some (old.getD "" ++ String.ofList new)

def addText (o : Open) (t : List Char) : Open :=
  match o.children with
  | [] => { o with element := { o.element with text := extend o.element.text t } }
  | c :: cs => { o with children := c.withTail (extend c.tail t) :: cs }

def addChild (o : Open) (n : Node) : Open := { o with children := n :: o.children }

def isEmpty (o : Open) : Bool := o.element.text.isNone && o.children.isEmpty

/-- whether the last thing in the element is a text, or the first one is -/
def touchesText (o : Open) : Bool :=
  o.element.text.isSome || (o.children.head?.bind Node.tail).isSome

/-- whether a piece of text is layout only -/
def isLayout (o : Open) (p : Piece) : Bool :=
  (o.spacing == .unknown || o.spacing == .layout) && p.text.all isMarkupBlank &&
    p.border != .other && !(o.isEmpty && p.border == .endTag) && !o.touchesText

def takePiece (b : Blanks) (o : Open) (p : Piece) : Open :=
  if b == .drop && o.isLayout p then o
  else
    let o := o.addText p.text
    if o.spacing == .unknown then { o with spacing := .mixed } else o

def close (o : Open) : Node := .element 0 o.element o.children.reverse none

end Open

/-- the open elements, the innermost one first, and the root once it is closed -/
structure Reading where
  opened : List Open
  root : Option Node

namespace Reading

def addNode (r : Reading) (n : Node) : Reading :=
  match r.opened with
  | o :: os => { r with opened := o.addChild n :: os }
  | [] => if n.isElement then { r with root := some n } else r

/-- opens an element; there is only one root -/
def openTag? (r : Reading) (name : String) (attributes : List (String × String)) :
    Option Reading :=
  let outer := r.opened.head?
  if outer.isNone && r.root.isSome then none
  else
    (Bindings.element? (outer.elim [] Open.bindings) name attributes).map fun (e, bs) =>
      let spacing := spacingOf e (outer.elim .unknown Open.spacing)
      { r with opened := ⟨name, e, bs, spacing, []⟩ :: r.opened }

/-- closes the innermost element, which has to have the name -/
def closeTag? (r : Reading) (name : String) : Option Reading :=
  match r.opened with
  | o :: os => if o.tag = name then some (addNode { r with opened := os } o.close) else none
  | [] => none

def take? (b : Blanks) (r : Reading) : Token → Option Reading
  | .startTag n as closed =>
    (r.openTag? n as).bind fun r' => if closed then r'.closeTag? n else some r'
  | .endTag n => r.closeTag? n
  | .comment t => some (r.addNode (.leaf 0 (.comment t) none))
  | .instruction t d => some (r.addNode (.leaf 0 (.instruction t d) none))
  | .literal t =>
    match r.opened with
    | o :: os => some { r with opened := o.addText t :: os }
    | [] => none
  | .run text =>
    match r.opened with
    | o :: os =>
      match b with
      | .keep => some { r with opened := o.addText (unifyLineEnds text.text) :: os }
      | .drop => some { r with opened := text.pieces.foldl (Open.takePiece b) o :: os }
    | [] => if text.text.all isMarkupBlank then some r else none

end Reading

def rootOf? (b : Blanks) (ts : List Token) : Option Node :=
  match ts.foldlM (Reading.take? b) ⟨[], none⟩ with
  | some ⟨[], root⟩ => root
  | _ => none

/-- What documents are parsed with: the encodings that are known besides the common ones, and the
root of a document with the version, the remark on standing alone and the text behind them. -/
structure Parser where
  decoders : Decoders
  root? : Option String → Option Bool → List Char → Option Node

namespace Parser

/-- a parser without further encodings for documents without document type declaration -/
def basic (b : Blanks) : Parser where
  decoders := fun _ _ => none
  root? := fun _ _ cs => (tokens? cs).bind (rootOf? b)

/-- The root of the document that a text is.  The encoding that is declared is one of bytes and
doesn't matter to a text. -/
def ofText? (P : Parser) (cs : List Char) : Option Node :=
  (readDeclaration? cs).bind fun (d, rest) =>
    P.root? (d.map fun d => d.version) (d.bind fun d => d.standalone) rest

/-- the root of the document that the bytes are -/
def ofBytes? (P : Parser) (bs : Bytes) : Option Node :=
  (decodeDocument? P.decoders bs).bind P.ofText?

end Parser

end XmlPaths.Markup

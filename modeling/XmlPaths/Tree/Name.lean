import XmlPaths.Text.Ranges

/-!
# Names of elements and attributes

A name has a local part and may belong to a namespace.  Its universal form is the local part alone
or `{uri}local`.

* `Name`, `Name.universal`     names and their universal forms;
* `Name.ofUniversal?`          the name of a universal form, where it has a local part at all;
* `isNcName`                   whether a text can be a local part;
* `isMarkupText`               whether markup admits all characters of a text;
* `xmlSpace`                   the namespace that the prefix `xml` always stands for.
-/

namespace XmlPaths

/-- the characters that markup admits: no controls but tabulator, line feed and carriage return -/
def isMarkupChar (c : Char) : Bool :=
  isControlAdmitted c || (0x20 ≤ c.toNat && c != '\ufffe' && c != '\uffff')
where
  isControlAdmitted (c : Char) : Bool := c == '\t' || c == '\n' || c == '\r'

def isMarkupText (s : String) : Bool := s.toList.all isMarkupChar

/-- the characters that a name in markup may start with, without the colon -/
def ncNameStartRanges : Ranges :=
  [(0x41, 0x5a), (0x5f, 0x5f), (0x61, 0x7a), (0xc0, 0xd6), (0xd8, 0xf6), (0xf8, 0x2ff),
   (0x370, 0x37d), (0x37f, 0x1fff), (0x200c, 0x200d), (0x2070, 0x218f), (0x2c00, 0x2fef),
   (0x3001, 0xd7ff), (0xf900, 0xfdcf), (0xfdf0, 0xfffd), (0x10000, 0xeffff)]

def ncNameOnlyRanges : Ranges :=
  [(0x2d, 0x2e), (0x30, 0x39), (0xb7, 0xb7), (0x300, 0x36f), (0x203f, 0x2040)]

def isNcNameStart (c : Char) : Bool := ncNameStartRanges.covers c

def isNcNameChar (c : Char) : Bool := isNcNameStart c || ncNameOnlyRanges.covers c

/-- The ogham space mark: the standard that document trees follow takes it for no name
character, although later editions do. -/
def oghamSpace : Char := '\u1680'

def isNcNameChars : List Char → Bool
  | [] => false
  | c :: cs => isNcNameStart c && cs.all isNcNameChar

/-- whether a text can be the local part of a name in a tree -/
def isNcName (s : String) : Bool := isNcNameChars s.toList && !s.toList.contains oghamSpace

def xmlSpace : String := "http://www.w3.org/XML/1998/namespace"

structure Name where
  space : Option String
  localName : String
deriving DecidableEq

namespace Name

def universal (n : Name) : String :=
  match n.space with
  | some uri => String.ofList ('\x7b' :: uri.toList ++ '\x7d' :: n.localName.toList)
  | none => n.localName

/-- The name of a universal form.  An empty namespace is none; there is no name without a local
part, with an opening brace that is not closed, or with characters that markup doesn't admit. -/
def ofUniversal? (s : String) : Option Name :=
  if !isMarkupText s then none
  else
    match s.toList with
    | [] => none
    | '\x7b' :: cs =>
      match cs.dropWhile (· != '\x7d') with
      | [] => none
      | [_] => none
      | _ :: l =>
        let uri := cs.takeWhile (· != '\x7d')
        some ⟨if uri.isEmpty then none else some (String.ofList uri), String.ofList l⟩
    | _ => some ⟨none, s⟩

/-- The name of a local part in the namespace of a URI; a URI that begins with a brace is itself
taken for a universal form, whose namespace counts.  The universal form is read up to its first
closing brace, so a URI with one loses its end to the local part, which then isn't a valid one. -/
def inSpace? (uri localName : String) : Option Name :=
  if isMarkupText uri && isNcName localName then
    match uri.toList with
    | '\x7b' :: _ =>
      match ofUniversal? uri with
      | some n => ofUniversal? (universal ⟨some (n.space.getD n.localName), localName⟩)
      | none => none
    | _ => ofUniversal? (universal ⟨some uri, localName⟩)
  else none

def isValid (n : Name) : Bool := isNcName n.localName

end Name

end XmlPaths

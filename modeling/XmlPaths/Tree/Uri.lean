/-!
# URI references

The form of the references that may name a namespace of an element: an optional scheme, an
authority or not, a path, a query and a fragment, all of them in ASCII.

* `isUriReference`   whether a text has this form.
-/

namespace XmlPaths.Uri

def isUnreserved (c : Char) : Bool := c.isAlphanum || ['-', '.', '_', '~'].contains c

def isSubDelim (c : Char) : Bool :=
  ['!', '$', '&', '\'', '(', ')', '*', '+', ',', ';', '='].contains c

def isHexDigit (c : Char) : Bool :=
  c.isDigit || ('a' ≤ c && c ≤ 'f') || ('A' ≤ c && c ≤ 'F')

/-- whether every character is one of a class or part of an escape with a percent sign -/
def allEscaped (p : Char → Bool) : List Char → Bool
  | [] => true
  | '%' :: a :: b :: rest => isHexDigit a && isHexDigit b && allEscaped p rest
  | c :: rest => p c && allEscaped p rest

def isHostChar (c : Char) : Bool := isUnreserved c || isSubDelim c

def isPathChar (c : Char) : Bool := isHostChar c || c == ':' || c == '@'

def isHostAndPort (cs : List Char) : Bool :=
  match cs with
  | '[' :: rest =>
    match rest.dropWhile (· != ']') with
    | _ :: after => digitsFollow after
    | [] => false
  | cs => allEscaped isHostChar (cs.takeWhile (· != ':')) && digitsFollow (cs.dropWhile (· != ':'))
where
  digitsFollow : List Char → Bool
    | [] => true
    | ':' :: digits => !digits.isEmpty && digits.all Char.isDigit
    | _ => false

def isAuthority (cs : List Char) : Bool :=
  match cs.dropWhile (· != '@') with
  | _ :: host =>
    allEscaped (fun c => isHostChar c || c == ':') (cs.takeWhile (· != '@')) && isHostAndPort host
  | [] => isHostAndPort cs

/-- the part behind a scheme, up to the query -/
def isHierarchy (cs : List Char) : Bool :=
  match cs with
  | '/' :: '/' :: rest =>
    isAuthority (rest.takeWhile (· != '/')) &&
      allEscaped (fun c => isPathChar c || c == '/') (rest.dropWhile (· != '/'))
  | cs => allEscaped (fun c => isPathChar c || c == '/') cs

/-- what stands between the hash sign or question mark and the end -/
def isTrailer (cs : List Char) : Bool :=
  let (query, fragment) := (cs.takeWhile (· != '#'), (cs.dropWhile (· != '#')).drop 1)
  allEscaped (fun c => isPathChar c || c == '/' || c == '?') (query.drop 1) &&
    allEscaped (fun c => isPathChar c || ['/', '?', '[', ']'].contains c) fragment

/-- the path of a reference with its scheme, if there is one -/
def isMain (cs : List Char) : Bool :=
  match cs.dropWhile (fun c => c.isAlphanum || c == '+' || c == '-' || c == '.') with
  | ':' :: rest =>
    match cs with
    | c :: _ => c.isAlpha && isHierarchy rest
    | [] => false
  | _ => !(cs.takeWhile (· != '/')).contains ':' && isHierarchy cs

def isUriReference (s : String) : Bool :=
  let inMain (c : Char) : Bool := c != '?' && c != '#'
  isMain (s.toList.takeWhile inMain) && isTrailer (s.toList.dropWhile inMain)

theorem isUriReference_empty : isUriReference "" = true := by decide

end XmlPaths.Uri

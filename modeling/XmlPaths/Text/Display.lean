import XmlPaths.Text.Printable

/-!
# Displays of values in messages

A text is displayed between quotes, with escapes for the quote, the backslash and all characters
that don't show.  The quote is a single one, unless the text has a single but no double one.

* `displayText`       the display of a text;
* `Scalar`, `Scalar.display`   plain values and their displays.
-/

namespace XmlPaths

/-- the lower case hexadecimal digits of a number, at least `width` of them -/
def hexDigits (width n : Nat) : List Char :=
  let digits := Nat.toDigits 16 n
  List.replicate (width - digits.length) '0' ++ digits

/-- the display of a character in a text between the quotes `quote` -/
def displayChar (quote c : Char) : List Char :=
  if c == quote || c == '\\' then ['\\', c]
  else if c == '\n' then ['\\', 'n']
  else if c == '\t' then ['\\', 't']
  else if c == '\r' then ['\\', 'r']
  else if isPrintable c then [c]
  else if c.toNat < 0x100 then '\\' :: 'x' :: hexDigits 2 c.toNat
  else if c.toNat < 0x10000 then '\\' :: 'u' :: hexDigits 4 c.toNat
  else '\\' :: 'U' :: hexDigits 8 c.toNat

/-- the quote that encloses the display of a text -/
def displayQuote (cs : List Char) : Char := if '\'' ∈ cs ∧ '"' ∉ cs then '"' else '\''

def displayText (s : String) : String :=
  let cs := s.toList
  let q := displayQuote cs
  String.ofList (q :: cs.flatMap (displayChar q) ++ [q])

inductive Scalar where
  | none
  | truth (b : Bool)
  | integer (n : Int)
  | text (s : String)
deriving DecidableEq

def Scalar.display : Scalar → String
  | .none => "None"
  | .truth true => "True"
  | .truth false => "False"
  | .integer n => toString n
  | .text s => displayText s

end XmlPaths

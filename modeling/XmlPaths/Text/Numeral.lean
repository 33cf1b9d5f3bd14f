import XmlPaths.Text.Blank
import XmlPaths.Text.Digit

/-!
# Numerals

* `integer?`   the integer that a text is: a sign or none, then decimal digits of any script, between
               which single underscores may stand, and blanks at either end.
-/

namespace XmlPaths

def longestNumeral : Nat := 4300

/-- the values of the digits of a numeral; an underscore stands between two of them -/
def digitsOf? : List Char → Option (List Nat)
  | [] => none
  | [c] => (digitValue? c).map fun d => [d]
  | c :: '_' :: cs =>
    match digitValue? c, digitsOf? cs with
    | some d, some ds => some (d :: ds)
    | _, _ => none
  | c :: cs =>
    match digitValue? c, digitsOf? cs with
    | some d, some ds => some (d :: ds)
    | _, _ => none

def natural? (cs : List Char) : Option Nat :=
  match digitsOf? cs with
  | none => none
  | some ds =>
    if ds.length ≤ longestNumeral then some (ds.foldl (fun n d => 10 * n + d) 0) else none

def integer? (s : String) : Option Int :=
  match trimBlanks s.toList with
  | '-' :: cs => (natural? cs).map fun n => -(n : Int)
  | '+' :: cs => (natural? cs).map Int.ofNat
  | cs => (natural? cs).map Int.ofNat

end XmlPaths

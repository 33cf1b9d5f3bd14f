import XmlPaths.Text.Blank

/-!
# The numbers of expressions

Numbers are those of binary floating point with 53 significant bits; here they are held as exact
rationals, and every result is rounded to the nearest of them, ties to the even neighbour.  Zero has
no sign.

* `Number`             not a number, the infinities, finite numbers;
* `Number.round`       the nearest floating point number;
* `Number.add`, ...    the operations;
* `Number.ofText`      the number that a text spells, or not a number;
* `Number.toText`      the decimal spelling of a number.
-/

namespace XmlPaths

inductive Number where
  | nan
  | infinite (negative : Bool)
  | finite (value : Rat)

namespace Number

def ofNat (n : Nat) : Number := finite n

def pow2 (e : Int) : Rat :=
  match e with
  | .ofNat n => (Nat.pow 2 n : Rat)
  | .negSucc n => 1 / (Nat.pow 2 (n + 1) : Rat)

/-- the nearest integer, ties to the even one -/
def nearestInt (q : Rat) : Int :=
  let f := q.floor
  let d := q - f
  if d < 1 / 2 then f
  else if 1 / 2 < d then f + 1
  else if f % 2 = 0 then f else f + 1

/-- the greatest `e` with `2 ^ e ≤ q`, for a positive `q` -/
def exponentOf (q : Rat) : Int :=
  let guess : Int := (Nat.log2 q.num.natAbs : Int) - (Nat.log2 q.den : Int)
  if pow2 guess ≤ q then guess else guess - 1

def round (q : Rat) : Number :=
  if q = 0 then finite 0
  else
    let magnitude := if q < 0 then -q else q
    let unit := pow2 (max (exponentOf magnitude - 52) (-1074))
    let r := (nearestInt (q / unit) : Rat) * unit
    if pow2 1024 ≤ (if r < 0 then -r else r) then infinite (q < 0) else finite r

def isNegative : Number → Bool
  | nan => false
  | infinite n => n
  | finite q => q < 0

def isZero : Number → Bool
  | finite q => q == 0
  | _ => false

def neg : Number → Number
  | nan => nan
  | infinite n => infinite (!n)
  | finite q => finite (-q)

def add : Number → Number → Number
  | finite a, finite b => round (a + b)
  | nan, _ => nan
  | _, nan => nan
  | infinite a, infinite b => if a = b then infinite a else nan
  | infinite a, finite _ => infinite a
  | finite _, infinite b => infinite b

def sub (a b : Number) : Number := add a b.neg

def mul : Number → Number → Number
  | finite a, finite b => round (a * b)
  | nan, _ => nan
  | _, nan => nan
  | a, b => if a.isZero || b.isZero then nan else infinite (a.isNegative != b.isNegative)

def div : Number → Number → Number
  | finite a, finite b =>
    if b = 0 then if a = 0 then nan else infinite (a < 0) else round (a / b)
  | nan, _ => nan
  | _, nan => nan
  | infinite _, infinite _ => nan
  | infinite a, finite b => infinite (a != decide (b < 0))
  | finite _, infinite _ => finite 0

/-- the remainder of the division that truncates its quotient -/
def mod : Number → Number → Number
  | finite a, finite b =>
    if b = 0 then nan
    else
      let q := a / b
      let t := if q < 0 then -(-q).floor else q.floor
      finite (a - (t : Rat) * b)
  | finite a, infinite _ => finite a
  | _, _ => nan

def floor : Number → Number
  | finite q => finite q.floor
  | n => n

def ceiling : Number → Number
  | finite q => finite (-(-q).floor)
  | n => n

/-- the nearest integer, a half is rounded up -/
def roundHalfUp : Number → Number
  | finite q => finite (q + 1 / 2).floor
  | n => n

def eq : Number → Number → Bool
  | finite a, finite b => a == b
  | infinite a, infinite b => a == b
  | _, _ => false

def lt : Number → Number → Bool
  | finite a, finite b => a < b
  | infinite a, infinite b => a && !b
  | infinite a, finite _ => a
  | finite _, infinite b => !b
  | nan, _ => false
  | _, nan => false

def le (a b : Number) : Bool := lt a b || eq a b

def truth : Number → Bool
  | nan => false
  | infinite _ => true
  | finite q => q != 0

/-! ## spelling -/

def digitOf (c : Char) : Nat := c.toNat - '0'.toNat

def ofDigits (cs : List Char) : Nat := cs.foldl (fun n c => 10 * n + digitOf c) 0

def pow10 (e : Int) : Rat :=
  match e with
  | .ofNat n => (Nat.pow 10 n : Rat)
  | .negSucc n => 1 / (Nat.pow 10 (n + 1) : Rat)

def takeExponent : List Char → Int × List Char
  | c :: cs =>
    if c = 'e' || c = 'E' then
      match cs with
      | '-' :: r => (-(ofDigits (r.takeWhile Char.isDigit) : Int), r.dropWhile Char.isDigit)
      | '+' :: r => (ofDigits (r.takeWhile Char.isDigit), r.dropWhile Char.isDigit)
      | r => (ofDigits (r.takeWhile Char.isDigit), r.dropWhile Char.isDigit)
    else (0, c :: cs)
  | [] => (0, [])

/-- the exponents beyond which every number is infinite or zero -/
def exponentLimit : Int := 100000

/-- the number without a sign at the front of the text, and what follows -/
def takeNumber? (cs : List Char) : Option (Number × List Char) :=
  let whole := cs.takeWhile Char.isDigit
  let (fraction, rest) : List Char × List Char :=
    match cs.dropWhile Char.isDigit with
    | '.' :: r => (r.takeWhile Char.isDigit, r.dropWhile Char.isDigit)
    | r => ([], r)
  if whole.isEmpty && fraction.isEmpty then none
  else
    let (exponent, rest) := takeExponent rest
    let e := max (-exponentLimit) (min exponentLimit exponent)
    let q : Rat := (ofDigits (whole ++ fraction) : Nat)
    some (round (q * pow10 (e - fraction.length)), rest)

/-- the number that a text spells with an optional minus sign, between optional blanks -/
def ofText (s : String) : Number :=
  let strip (cs : List Char) := cs.dropWhile isMarkupBlank
  let (negative, cs) : Bool × List Char :=
    match strip s.toList with
    | '-' :: r => (true, r)
    | r => (false, r)
  match takeNumber? cs with
  | some (n, rest) => if (strip rest).isEmpty then if negative then n.neg else n else nan
  | none => nan

def trimZeros (cs : List Char) : List Char := (cs.reverse.dropWhile (· == '0')).reverse

def padded (width n : Nat) : List Char :=
  let ds := Nat.toDigits 10 n
  List.replicate (width - ds.length) '0' ++ ds

/-- a positive number with a count of decimal places, without trailing zeros -/
def fixed (places : Nat) (q : Rat) : List Char :=
  let n := (nearestInt (q * pow10 places)).toNat
  let fraction := trimZeros (padded places (n % Nat.pow 10 places))
  Nat.toDigits 10 (n / Nat.pow 10 places) ++ if fraction.isEmpty then [] else '.' :: fraction

/-- the number of decimal digits in front of the point, less one; negative for small numbers -/
def decimalExponent (q : Rat) : Int :=
  if 1 ≤ q then (Nat.toDigits 10 q.floor.toNat).length - 1
  else -((Nat.toDigits 10 ((1 / q).floor.toNat - 1)).length : Int)

/-- a positive number with fifteen significant digits and an exponent -/
def scientific (q : Rat) : List Char :=
  let guess := decimalExponent q
  let digits := nearestInt (q * pow10 (14 - guess))
  let (digits, e) : Int × Int :=
    if Nat.pow 10 15 ≤ digits then (digits / 10, guess + 1)
    else if digits < Nat.pow 10 14 then (nearestInt (q * pow10 (15 - guess)), guess - 1)
    else (digits, guess)
  match Nat.toDigits 10 digits.toNat with
  | d :: ds =>
    let fraction := trimZeros ds
    d :: (if fraction.isEmpty then [] else '.' :: fraction) ++
      'e' :: (if e < 0 then '-' else '+') :: padded 2 e.natAbs
  | [] => []

/-- The decimal spelling: fifteen significant digits, without an exponent between a hundred
thousandth and a billion and for all integers that fit into 32 bits. -/
def positiveText (q : Rat) : List Char :=
  if q.den = 1 && q.num < 2147483647 then Nat.toDigits 10 q.num.toNat
  else if q < pow10 (-5) || pow10 9 < q then scientific q
  else
    let e := decimalExponent q
    fixed (if 0 < e then 14 - e.toNat else 15) q

def toText : Number → String
  | nan => "NaN"
  | infinite false => "Infinity"
  | infinite true => "-Infinity"
  | finite q =>
    if q = 0 then "0"
    else if q < 0 then String.ofList ('-' :: positiveText (-q))
    else String.ofList (positiveText q)

theorem eq_ofNat (m n : Nat) : (ofNat m).eq (ofNat n) = (m == n) := by
  show ((m : Rat) == (n : Rat)) = (m == n)
  rw [Bool.eq_iff_iff, beq_iff_eq, beq_iff_eq, Rat.natCast_inj]

end Number

end XmlPaths

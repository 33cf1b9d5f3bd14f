import XmlPaths.Markup.Declaration
import XmlPaths.Text.Reading

/-!
# Encodings of documents

* `Encoding`, `Encoding.decode?`   the encodings that are known, and the text of a byte sequence;
* `utf8`                 the bytes of a text in UTF-8, from which it is read back;
* `Decoders`             further encodings, which are told by their names;
* `decodeDocument?`      the text of a document in bytes: a byte order mark tells the encoding,
                         otherwise the declaration of the document does, otherwise it is UTF-8.
-/

namespace XmlPaths.Markup

abbrev Bytes := List UInt8

def char? (n : Nat) : Option Char :=
  if h : n.isValidChar then some (Char.ofNatAux n h) else none

/-! ## UTF-8 -/

/-- the bits in a byte that continues a character -/
def continuation? (b : UInt8) : Option Nat :=
  if 0x80 ≤ b.toNat ∧ b.toNat < 0xc0 then some (b.toNat - 0x80) else none

/-- the character at the front of a byte sequence; its form must be the shortest one -/
def takeUtf8? : Bytes → Option (Char × Bytes)
  | [] => none
  | a :: rest =>
    let n := a.toNat
    if n < 0x80 then (char? n).map (·, rest)
    else if n < 0xc2 then none
    else if n < 0xe0 then
      match rest with
      | b :: rest => do
        let b ← continuation? b
        (char? ((n - 0xc0) * 0x40 + b)).map (·, rest)
      | _ => none
    else if n < 0xf0 then
      match rest with
      | b :: c :: rest => do
        let b ← continuation? b
        let c ← continuation? c
        let m := (n - 0xe0) * 0x1000 + b * 0x40 + c
        if m < 0x800 then none else (char? m).map (·, rest)
      | _ => none
    else if n < 0xf5 then
      match rest with
      | b :: c :: d :: rest => do
        let b ← continuation? b
        let c ← continuation? c
        let d ← continuation? d
        let m := (n - 0xf0) * 0x40000 + b * 0x1000 + c * 0x40 + d
        if m < 0x10000 then none else (char? m).map (·, rest)
      | _ => none
    else none

def utf8Char (c : Char) : Bytes :=
  let n := c.toNat
  let part (b : Nat) : UInt8 := UInt8.ofNat (0x80 + n / b % 0x40)
  if n < 0x80 then [UInt8.ofNat n]
  else if n < 0x800 then [UInt8.ofNat (0xc0 + n / 0x40), part 1]
  else if n < 0x10000 then [UInt8.ofNat (0xe0 + n / 0x1000), part 0x40, part 1]
  else [UInt8.ofNat (0xf0 + n / 0x40000), part 0x1000, part 0x40, part 1]

def utf8 (cs : List Char) : Bytes := cs.flatMap utf8Char

/-! ### what is written is read back -/

theorem char?_toNat (c : Char) : char? c.toNat = some c := by
  have h : c.toNat.isValidChar := c.valid
  rw [char?, dif_pos h]
  rfl

theorem toNat_ofNat_of_lt {n : Nat} (h : n < 0x100) : (UInt8.ofNat n).toNat = n := by
  rw [UInt8.toNat_ofNat']
  exact Nat.mod_eq_of_lt h

theorem continuation?_ofNat (n : Nat) :
    continuation? (UInt8.ofNat (0x80 + n % 0x40)) = some (n % 0x40) := by
  have h : (UInt8.ofNat (0x80 + n % 0x40)).toNat = 0x80 + n % 0x40 := toNat_ofNat_of_lt (by omega)
  unfold continuation?
  rw [h, if_pos (by omega), Nat.add_sub_cancel_left]

theorem takeUtf8?_utf8Char (c : Char) (rest : Bytes) :
    takeUtf8? (utf8Char c ++ rest) = some (c, rest) := by
  have hv : c.toNat < 0xd800 ∨ (0xdfff < c.toNat ∧ c.toNat < 0x110000) := c.valid
  have hc := char?_toNat c
  simp only [utf8Char]
  split
  · next h =>
    have e : (UInt8.ofNat c.toNat).toNat = c.toNat := toNat_ofNat_of_lt (by omega)
    simp only [List.cons_append, List.nil_append, takeUtf8?, e, if_pos h, hc, Option.map_some]
  split
  · next h1 h2 =>
    have e : (UInt8.ofNat (0xc0 + c.toNat / 0x40)).toNat = 0xc0 + c.toNat / 0x40 :=
      toNat_ofNat_of_lt (by omega)
    have n : (0xc0 + c.toNat / 0x40 - 0xc0) * 0x40 + c.toNat / 1 % 0x40 = c.toNat := by omega
    simp only [List.cons_append, List.nil_append, takeUtf8?, e, continuation?_ofNat]
    rw [if_neg (by omega), if_neg (by omega), if_pos (by omega)]
    simp only [Option.bind_eq_bind, Option.bind_some, n, hc, Option.map_some]
  split
  · next h1 h2 h3 =>
    have e : (UInt8.ofNat (0xe0 + c.toNat / 0x1000)).toNat = 0xe0 + c.toNat / 0x1000 :=
      toNat_ofNat_of_lt (by omega)
    have n : (0xe0 + c.toNat / 0x1000 - 0xe0) * 0x1000 + c.toNat / 0x40 % 0x40 * 0x40 +
        c.toNat / 1 % 0x40 = c.toNat := by omega
    simp only [List.cons_append, List.nil_append, takeUtf8?, e, continuation?_ofNat]
    rw [if_neg (by omega), if_neg (by omega), if_neg (by omega), if_pos (by omega)]
    simp only [Option.bind_eq_bind]
    rw [Option.bind_some, Option.bind_some, n, if_neg (by omega), hc, Option.map_some]
  · next h1 h2 h3 =>
    have e : (UInt8.ofNat (0xf0 + c.toNat / 0x40000)).toNat = 0xf0 + c.toNat / 0x40000 :=
      toNat_ofNat_of_lt (by omega)
    have n : (0xf0 + c.toNat / 0x40000 - 0xf0) * 0x40000 + c.toNat / 0x1000 % 0x40 * 0x1000 +
        c.toNat / 0x40 % 0x40 * 0x40 + c.toNat / 1 % 0x40 = c.toNat := by omega
    simp only [List.cons_append, List.nil_append, takeUtf8?, e, continuation?_ofNat]
    rw [if_neg (by omega), if_neg (by omega), if_neg (by omega), if_neg (by omega),
      if_pos (by omega)]
    simp only [Option.bind_eq_bind]
    rw [Option.bind_some, Option.bind_some, Option.bind_some, n, if_neg (by omega), hc,
      Option.map_some]

theorem utf8Char_ne_nil (c : Char) : utf8Char c ≠ [] := by
  intro h
  have := takeUtf8?_utf8Char c []
  simp [h, takeUtf8?] at this

/-- Text that was written in UTF-8 is read back. -/
theorem readAll_takeUtf8?_utf8 (cs : List Char) : readAll takeUtf8? (utf8 cs) = some cs := by
  suffices h : ∀ n, (utf8 cs).length ≤ n → readAllUpTo takeUtf8? n (utf8 cs) = some cs from
    h _ (Nat.le_refl _)
  induction cs with
  | nil => intro n _; exact readAllUpTo_nil _ n
  | cons c cs ih =>
    intro n hn
    have hs : utf8 (c :: cs) = utf8Char c ++ utf8 cs := by simp [utf8]
    obtain ⟨b, bs, hb⟩ : ∃ b bs, utf8Char c = b :: bs := List.exists_cons_of_ne_nil (utf8Char_ne_nil c)
    have ht := takeUtf8?_utf8Char c (utf8 cs)
    rw [hs] at hn ⊢
    rw [hb, List.cons_append] at hn ht ⊢
    cases n with
    | zero => simp at hn
    | succ n =>
      rw [List.length_cons, List.length_append] at hn
      simp only [readAllUpTo, ht, ih n (by omega), Option.map_some]

/-! ## other encodings -/

inductive ByteOrder where
  | little
  | big
deriving DecidableEq

/-- the number that two bytes stand for -/
def ByteOrder.unit (o : ByteOrder) (a b : UInt8) : Nat :=
  match o with
  | .little => a.toNat + 0x100 * b.toNat
  | .big => 0x100 * a.toNat + b.toNat

/-- the character at the front of a sequence of byte pairs -/
def takeUtf16? (o : ByteOrder) : Bytes → Option (Char × Bytes)
  | a :: b :: rest =>
    let n := o.unit a b
    if n < 0xd800 ∨ 0xe000 ≤ n then (char? n).map (·, rest)
    else if 0xdc00 ≤ n then none
    else
      match rest with
      | c :: d :: rest =>
        let m := o.unit c d
        if m < 0xdc00 ∨ 0xe000 ≤ m then none
        else (char? (0x10000 + (n - 0xd800) * 0x400 + (m - 0xdc00))).map (·, rest)
      | _ => none
  | _ => none

/-- each byte is the character of its number -/
def latin1 (bs : Bytes) : List Char := bs.map fun b => Char.ofNat b.toNat

inductive Encoding where
  | utf8
  | latin1
  | ascii
  | utf16 (order : ByteOrder)
deriving DecidableEq

def Encoding.decode? : Encoding → Bytes → Option (List Char)
  | .utf8, bs => readAll takeUtf8? bs
  | .latin1, bs => some (XmlPaths.Markup.latin1 bs)
  | .ascii, bs => if bs.all (·.toNat < 0x80) then some (XmlPaths.Markup.latin1 bs) else none
  | .utf16 o, bs => readAll (takeUtf16? o) bs

/-- The encoding that a declaration names; case doesn't matter.  A declaration that could be read
byte by byte can't be in pairs of bytes. -/
def Encoding.ofName? (name : String) : Option Encoding :=
  let n := String.ofList (name.toList.map Char.toLower)
  if ["utf-8", "utf8"].contains n then some .utf8
  else if ["iso-8859-1", "iso8859-1", "iso_8859-1", "iso-latin-1", "latin1", "latin-1", "l1"].contains n
  then some .latin1
  else if ["us-ascii", "ascii"].contains n then some .ascii
  else none

/-- How the bytes of an encoding are decoded that is known by its name only.  None if it isn't
known, or if the bytes aren't in it. -/
abbrev Decoders := String → Bytes → Option (List Char)

/-- the text of bytes in the encoding of a name -/
def Decoders.decode? (ds : Decoders) (name : String) (bs : Bytes) : Option (List Char) :=
  match Encoding.ofName? name with
  | some encoding => encoding.decode? bs
  | none => ds name bs

/-- The text of a document without byte order mark.  An encoding that it declares is the one of all
that follows this setting. -/
def decodeDeclared? (ds : Decoders) (bs : Bytes) : Option (List Char) :=
  match readHead? (latin1 bs) with
  | some (⟨_, some name⟩, rest) =>
    let n := bs.length - rest.length
    (ds.decode? name (bs.drop n)).map (latin1 (bs.take n) ++ ·)
  | _ => Encoding.decode? .utf8 bs

def decodeDocument? (ds : Decoders) : Bytes → Option (List Char)
  | 0xef :: 0xbb :: 0xbf :: bs => Encoding.decode? .utf8 bs
  | 0xff :: 0xfe :: bs => Encoding.decode? (.utf16 .little) bs
  | 0xfe :: 0xff :: bs => Encoding.decode? (.utf16 .big) bs
  | 0x3c :: 0 :: 0x3f :: 0 :: bs => Encoding.decode? (.utf16 .little) (0x3c :: 0 :: 0x3f :: 0 :: bs)
  | 0 :: 0x3c :: 0 :: 0x3f :: bs => Encoding.decode? (.utf16 .big) (0 :: 0x3c :: 0 :: 0x3f :: bs)
  | bs => decodeDeclared? ds bs

end XmlPaths.Markup

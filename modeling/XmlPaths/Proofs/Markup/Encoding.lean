import XmlPaths.Markup.Document
import XmlPaths.Proofs.Markup.Declaration

/-!
# Texts in bytes that declare an encoding

The declaration of a text consists of ASCII characters, so it's read from the UTF-8 bytes of the
text, and what is behind the setting of an encoding is decoded as it says.

* `latin1_utf8`                  ASCII characters in bytes;
* `SetsEncoding.decodeDocument?_with`, `SetsEncoding.decodeDocument?_without`   the text in the
                                 bytes of one, with and without the encoding that it declares;
* `SetsEncoding.ofBytes?_with`, `SetsEncoding.ofBytes?_without`   the document in them;
* `KeepsText`                    encodings in which the bytes of a text stand for itself.
-/

namespace XmlPaths.Markup

/-! ## ASCII characters in bytes -/

theorem utf8_append (cs ds : List Char) : utf8 (cs ++ ds) = utf8 cs ++ utf8 ds :=
  List.flatMap_append

theorem utf8Char_of_ascii {c : Char} (h : c.toNat < 0x80) : utf8Char c = [UInt8.ofNat c.toNat] := by
  rw [utf8Char, if_pos h]

theorem utf8_cons_of_ascii {c : Char} (h : c.toNat < 0x80) (cs : List Char) :
    utf8 (c :: cs) = UInt8.ofNat c.toNat :: utf8 cs := by
  rw [utf8, List.flatMap_cons, utf8Char_of_ascii h]
  rfl

/-- The bytes of ASCII characters are the characters of their numbers. -/
theorem latin1_utf8_append {p : List Char} (hp : IsAscii p) (bs : Bytes) :
    latin1 (utf8 p ++ bs) = p ++ latin1 bs := by
  induction p with
  | nil => rfl
  | cons c p ih =>
    obtain ⟨hc, hp⟩ := List.forall_mem_cons.1 hp
    have hbyte : Char.ofNat (UInt8.ofNat c.toNat).toNat = c := by
      rw [toNat_ofNat_of_lt (by omega), Char.ofNat_toNat]
    rw [utf8_cons_of_ascii hc, List.cons_append, latin1, List.map_cons, hbyte]
    exact congrArg (c :: ·) (ih hp)

theorem latin1_utf8 {cs : List Char} (hcs : IsAscii cs) : latin1 (utf8 cs) = cs := by
  have happ := latin1_utf8_append hcs []
  have hnil : latin1 [] = [] := rfl
  rwa [List.append_nil, hnil, List.append_nil] at happ

theorem all_utf8_lt {cs : List Char} (hcs : IsAscii cs) :
    (utf8 cs).all (·.toNat < 0x80) = true := by
  induction cs with
  | nil => rfl
  | cons c cs ih =>
    obtain ⟨hc, hcs⟩ := List.forall_mem_cons.1 hcs
    have hbyte : decide ((UInt8.ofNat c.toNat).toNat < 0x80) = true := by
      rw [toNat_ofNat_of_lt (by omega), decide_eq_true hc]
    rw [utf8_cons_of_ascii hc, List.all_cons, hbyte, Bool.true_and, ih hcs]

theorem Encoding.ofName?_ne_utf16 {name : String} {encoding : Encoding}
    (h : ofName? name = some encoding) (order : ByteOrder) : encoding ≠ .utf16 order := by
  rintro rfl
  simp only [ofName?] at h
  split at h
  · exact absurd h (by simp)
  · split at h
    · exact absurd h (by simp)
    · split at h
      · exact absurd h (by simp)
      · exact absurd h (by simp)

/-- In all encodings that are known by a name the bytes of ASCII characters stand for them. -/
theorem Encoding.decode?_utf8 {encoding : Encoding} (h : ∀ order, encoding ≠ .utf16 order)
    {cs : List Char} (hcs : IsAscii cs) : encoding.decode? (Markup.utf8 cs) = some cs := by
  cases encoding with
  | utf8 => exact readAll_takeUtf8?_utf8 cs
  | latin1 => exact congrArg some (latin1_utf8 hcs)
  | ascii => rw [decode?, if_pos (all_utf8_lt hcs), latin1_utf8 hcs]
  | utf16 order => exact absurd rfl (h order)

/-! ## with and without an encoding -/

theorem decodeDocument?_of_head (ds : Decoders) {h : Head} {p : List Char} (hp : SpellsHead h p)
    (z : List Char) : decodeDocument? ds (utf8 (p ++ z)) = decodeDeclared? ds (utf8 (p ++ z)) := by
  cases hp with
  | intro hs hv hu => rfl

section
variable {t rest : List Char} {d : Declaration} {name : String} {head setting behind : List Char}
  (h : SetsEncoding name head setting behind t) (hd : readDeclaration? t = some (some d, rest))
  (hname : d.encoding = some name)
include h hd hname

/-- The bytes behind the setting are those of another text, unless they are in UTF-8. -/
theorem SetsEncoding.decodeDocument?_with (ds : Decoders) : decodeDocument? ds (utf8 t) =
    (ds.decode? name (utf8 behind)).map fun s => head ++ (setting ++ s) := by
  obtain ⟨-, hboth, -⟩ := h.exists_ending hd hname
  have hread : readHead? (latin1 (utf8 (head ++ setting) ++ utf8 behind)) =
      some (⟨d.version, some name⟩, latin1 (utf8 behind)) := by
    rw [latin1_utf8_append hboth.ascii]
    exact readHead?_append hboth fun hnone => absurd hnone (by simp)
  have hlength : (utf8 (head ++ setting) ++ utf8 behind).length - (latin1 (utf8 behind)).length =
      (utf8 (head ++ setting)).length := by
    rw [List.length_append, latin1, List.length_map, Nat.add_sub_cancel]
  rw [h.text, ← List.append_assoc, decodeDocument?_of_head ds hboth, utf8_append, decodeDeclared?,
    hread]
  dsimp only
  rw [hlength, List.drop_left, List.take_left, latin1_utf8 hboth.ascii]
  simp only [List.append_assoc]

theorem SetsEncoding.decodeDocument?_without (ds : Decoders) :
    decodeDocument? ds (utf8 (head ++ behind)) = some (head ++ behind) := by
  obtain ⟨hhead, -, e, he, rfl⟩ := h.exists_ending hd hname
  have hspells : SpellsDeclaration ⟨⟨d.version, none⟩, d.standalone⟩ (head ++ e) := .intro hhead he
  have hread : readHead? (latin1 (utf8 (head ++ (e ++ rest)))) =
      some (⟨d.version, none⟩, e ++ latin1 (utf8 rest)) := by
    rw [← List.append_assoc, utf8_append, latin1_utf8_append hspells.ascii, List.append_assoc]
    exact readHead?_append hhead fun _ => (readEnding?_append he _).2
  rw [decodeDocument?_of_head ds hhead, decodeDeclared?, hread]
  exact readAll_takeUtf8?_utf8 _

variable (P : Parser)

/-- Without its encoding a text is the same document. -/
theorem SetsEncoding.ofText?_eq : P.ofText? (head ++ behind) = P.ofText? t := by
  obtain ⟨hhead, -, e, he, rfl⟩ := h.exists_ending hd hname
  have hread : readDeclaration? (head ++ (e ++ rest)) =
      some (some ⟨⟨d.version, none⟩, d.standalone⟩, rest) := by
    rw [← List.append_assoc]
    exact readDeclaration?_append (.intro hhead he) rest
  rw [Parser.ofText?, Parser.ofText?, hread, hd]
  rfl

/-- Without its encoding a text is read from its bytes as it is. -/
theorem SetsEncoding.ofBytes?_without : P.ofBytes? (utf8 (head ++ behind)) = P.ofText? t := by
  rw [Parser.ofBytes?, h.decodeDocument?_without hd hname, Option.bind_some, h.ofText?_eq hd hname]

/-- With its encoding it is read as the text that its bytes stand for behind the setting. -/
theorem SetsEncoding.ofBytes?_with : P.ofBytes? (utf8 t) =
    (P.decoders.decode? name (utf8 behind)).bind fun s => P.ofText? (head ++ (setting ++ s)) := by
  rw [Parser.ofBytes?, h.decodeDocument?_with hd hname]
  cases P.decoders.decode? name (utf8 behind) <;> rfl

end

/-- The bytes that a text has in UTF-8 stand for it in the encoding of a name: it's UTF-8, it's one
of the other common ones and the text consists of ASCII characters, or it's decoded to the text. -/
def KeepsText (ds : Decoders) (name : String) (t : List Char) : Prop :=
  Encoding.ofName? name = some .utf8 ∨ (Encoding.ofName? name).isSome ∧ IsAscii t ∨
    ds.decode? name (utf8 t) = some t

theorem KeepsText.decode?_eq {ds : Decoders} {name : String} {t : List Char}
    (h : KeepsText ds name t) : ds.decode? name (utf8 t) = some t := by
  obtain hutf8 | ⟨hknown, hascii⟩ | hdecode := h
  · rw [Decoders.decode?, hutf8]
    exact readAll_takeUtf8?_utf8 t
  · obtain ⟨encoding, hencoding⟩ := Option.isSome_iff_exists.1 hknown
    rw [Decoders.decode?, hencoding]
    exact Encoding.decode?_utf8 (Encoding.ofName?_ne_utf16 hencoding) hascii
  · exact hdecode

end XmlPaths.Markup

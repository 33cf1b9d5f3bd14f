import XmlPaths.Markup.Declaration
import XmlPaths.Proofs.XPath.Lexing

/-!
# The grammar of declarations

What a declaration is, said without a reader: which texts spell which declarations.  The reader
agrees with the grammar, so that what follows a declaration doesn't matter to it.  A declaration
consists of ASCII characters, and without the setting of its encoding it's one as well.

* `SpellsSetting`, `SpellsEncoding`, `SpellsEnding`   the texts of settings, and of the parts of a
                        declaration that hold them;
* `SpellsHead`, `SpellsDeclaration`   the texts of first parts and of whole declarations;
* `readDeclaration?_eq_some_iff`      what is read as a declaration spells it;
* `SpellsDeclaration.ascii`           the characters of declarations;
* `SetsEncoding`                      the parts of a text that declares an encoding.
-/

namespace XmlPaths.Markup

open Alphabet (full)

/-! ## the grammar -/

def IsSpace (u : List Char) : Prop := ∀ c ∈ u, isMarkupBlank c = true

instance (u : List Char) : Decidable (IsSpace u) :=
  decidable_of_iff (u.all isMarkupBlank = true) List.all_eq_true

/-- a value that is assigned to a name, behind blanks -/
inductive SpellsSetting (name : String) (v : List Char) : List Char → Prop where
  | intro {b u w l : List Char} (hb : IsSpace b) (hne : b ≠ []) (hu : IsSpace u) (hw : IsSpace w)
      (hl : full.SpellsLiteral v l) :
      SpellsSetting name v (b ++ (name.toList ++ (u ++ '=' :: (w ++ l))))

/-- the name of the encoding, which may be absent -/
inductive SpellsEncoding : Option (List Char) → List Char → Prop where
  | absent : SpellsEncoding none []
  | named {n u : List Char} (hu : SpellsSetting "encoding" n u) (hn : isEncodingName n = true) :
      SpellsEncoding (some n) u

/-- whether the document stands alone, if that's said, and the end of the declaration -/
inductive SpellsEnding : Option Bool → List Char → Prop where
  | plain {w : List Char} (hw : IsSpace w) : SpellsEnding none (w ++ "?>".toList)
  | standalone {v s w : List Char} {alone : Bool} (hs : SpellsSetting "standalone" v s)
      (hv : truth? v = some alone) (hw : IsSpace w) :
      SpellsEnding (some alone) (s ++ (w ++ "?>".toList))

/-- the version and the encoding -/
inductive SpellsHead : Head → List Char → Prop where
  | intro {v s u : List Char} {encoding : Option (List Char)} (hs : SpellsSetting "version" v s)
      (hv : isVersion v = true) (hu : SpellsEncoding encoding u) :
      SpellsHead ⟨String.ofList v, encoding.map String.ofList⟩ ("<?xml".toList ++ (s ++ u))

inductive SpellsDeclaration : Declaration → List Char → Prop where
  | intro {h : Head} {alone : Option Bool} {p e : List Char} (hp : SpellsHead h p)
      (he : SpellsEnding alone e) : SpellsDeclaration ⟨h, alone⟩ (p ++ e)

/-! ## items -/

theorem expect?_append (item : String) (r : List Char) :
    expect? item (item.toList ++ r) = some r := by
  rw [expect?, if_pos (List.isPrefixOf_iff_prefix.2 (List.prefix_append _ _)), List.drop_left]

theorem eq_append_of_expect? {item : String} {cs r : List Char} (h : expect? item cs = some r) :
    cs = item.toList ++ r := by
  rw [expect?] at h
  split at h
  · next hprefix =>
    obtain ⟨t, rfl⟩ := List.isPrefixOf_iff_prefix.1 hprefix
    rw [List.drop_left, Option.some.injEq] at h
    rw [h]
  · exact absurd h (by simp)

/-- An item that begins with something else ends blanks. -/
theorem stops_item {item : String} (h : item.toList.head?.any (!isMarkupBlank ·) = true)
    (r : List Char) : Stops isMarkupBlank (item.toList ++ r) := by
  cases hitem : item.toList with
  | nil =>
    rw [hitem] at h
    exact absurd h (by simp)
  | cons c cs =>
    rw [hitem] at h
    exact stops_cons.2 (by simpa using h)

/-! ## settings -/

theorem needSpace?_append {b : List Char} (hb : IsSpace b) (hne : b ≠ []) {r : List Char}
    (hr : Stops isMarkupBlank r) : needSpace? (b ++ r) = some r := by
  obtain ⟨c, b, rfl⟩ := List.exists_cons_of_ne_nil hne
  rw [List.cons_append, needSpace?, if_pos (hb c List.mem_cons_self),
    skipSpace_append fun d hd => hb d (List.mem_cons_of_mem _ hd), skipSpace_of_stops hr]

theorem exists_of_needSpace? {cs r : List Char} (h : needSpace? cs = some r) :
    r = skipSpace cs ∧ ∃ b, IsSpace b ∧ b ≠ [] ∧ cs = b ++ r := by
  cases cs with
  | nil => exact absurd h (by simp [needSpace?])
  | cons c cs =>
    rw [needSpace?] at h
    split at h
    · next hc =>
      rw [Option.some.injEq] at h
      subst h
      refine ⟨(List.dropWhile_cons_of_pos hc).symm, c :: cs.takeWhile isMarkupBlank, ?_, by simp, ?_⟩
      · exact List.forall_mem_cons.2 ⟨hc, List.all_eq_true.1 List.all_takeWhile⟩
      · rw [List.cons_append, skipSpace, List.takeWhile_append_dropWhile]
    · exact absurd h (by simp)

theorem exists_space_append (cs : List Char) : ∃ u, IsSpace u ∧ cs = u ++ skipSpace cs :=
  ⟨cs.takeWhile isMarkupBlank, List.all_eq_true.1 List.all_takeWhile,
    (List.takeWhile_append_dropWhile).symm⟩

section
variable {name : String} (hname : name.toList.head?.any (!isMarkupBlank ·) = true)
  {v s : List Char}

theorem SpellsSetting.stops_literal {v l : List Char} (hl : full.SpellsLiteral v l) (r : List Char) :
    Stops isMarkupBlank (l ++ r) := by
  cases hl with
  | intro hq _ _ => rcases hq with rfl | rfl <;> exact stops_cons.2 (by decide)

theorem spellsSetting_quoted (name : String) (hv : '"' ∉ v) :
    SpellsSetting name v (' ' :: (name.toList ++ '=' :: '"' :: (v ++ ['"']))) := by
  have hspace : IsSpace [' '] := by decide
  have hnone : IsSpace [] := fun c hc => absurd hc (by simp)
  exact .intro hspace (by simp) hnone hnone (.intro (.inr rfl) hv fun _ _ => rfl)

include hname in
/-- A setting is read whatever follows it. -/
theorem takeSetting?_append (h : SpellsSetting name v s) (r : List Char) :
    takeSetting? name (s ++ r) = some (v, r) := by
  cases h with
  | @intro b u w l hb hne hu hw hl =>
    have happ : b ++ (name.toList ++ (u ++ '=' :: (w ++ l))) ++ r =
        b ++ (name.toList ++ (u ++ ("=".toList ++ (w ++ (l ++ r))))) := by simp
    have hequals : skipSpace (u ++ ("=".toList ++ (w ++ (l ++ r)))) =
        "=".toList ++ (w ++ (l ++ r)) := by
      rw [skipSpace_append hu]
      exact skipSpace_of_stops (stops_cons.2 (by decide))
    have hliteral : skipSpace (w ++ (l ++ r)) = l ++ r := by
      rw [skipSpace_append hw, skipSpace_of_stops (SpellsSetting.stops_literal hl r)]
    rw [takeSetting?, happ, needSpace?_append hb hne (stops_item hname _), Option.bind_some,
      expect?_append, Option.bind_some, takeAssigned?, hequals, expect?_append, Option.bind_some,
      hliteral, takeLiteral?_append hl]

theorem exists_spellsSetting_of_takeSetting? {cs r : List Char}
    (h : takeSetting? name cs = some (v, r)) : ∃ s, SpellsSetting name v s ∧ cs = s ++ r := by
  rw [takeSetting?, Option.bind_eq_some_iff] at h
  obtain ⟨r', hname, hassigned⟩ := h
  obtain ⟨cs', hspace, hexpect⟩ := Option.bind_eq_some_iff.1 hname
  obtain ⟨-, b, hb, hne, rfl⟩ := exists_of_needSpace? hspace
  obtain rfl := eq_append_of_expect? hexpect
  rw [takeAssigned?, Option.bind_eq_some_iff] at hassigned
  obtain ⟨r'', hequals, hliteral⟩ := hassigned
  obtain ⟨u, hu, hr'⟩ := exists_space_append r'
  obtain ⟨w, hw, hr''⟩ := exists_space_append r''
  obtain ⟨l, hl, hskip⟩ := exists_spellsLiteral_of_takeLiteral? hliteral
  refine ⟨_, .intro hb hne hu hw hl, ?_⟩
  rw [hr', eq_append_of_expect? hequals, hr'', hskip]
  simp

include hname in
theorem SpellsSetting.exists_skipSpace (h : SpellsSetting name v s) (r : List Char) :
    ∃ x, skipSpace (s ++ r) = name.toList ++ x := by
  cases h with
  | intro hb hne hu hw hl =>
    rw [List.append_assoc, List.append_assoc, skipSpace_append hb,
      skipSpace_of_stops (stops_item hname _)]
    exact ⟨_, rfl⟩

/-- No setting of a name is read where something else follows the blanks. -/
theorem takeSetting?_eq_none {cs : List Char} (h : expect? name (skipSpace cs) = none) :
    takeSetting? name cs = none := by
  rw [takeSetting?]
  cases hspace : needSpace? cs with
  | none => rfl
  | some r =>
    rw [Option.bind_some, (exists_of_needSpace? hspace).1, h]
    rfl

end

/-! ## heads and endings -/

/-- The end of a declaration is read whatever follows it, and names no encoding. -/
theorem readEnding?_append {alone : Option Bool} {e : List Char} (h : SpellsEnding alone e)
    (z : List Char) :
    readEnding? (e ++ z) = some (alone, z) ∧ takeEncoding (e ++ z) = (none, e ++ z) := by
  have hend : ∀ {w : List Char}, IsSpace w →
      skipSpace (w ++ "?>".toList ++ z) = "?>".toList ++ z := by
    intro w hw
    rw [List.append_assoc, skipSpace_append hw, skipSpace_of_stops (stops_item (by decide) z)]
  cases h with
  | @plain w hw =>
    have halone : takeSetting? "standalone" (w ++ "?>".toList ++ z) = none :=
      takeSetting?_eq_none (by rw [hend hw]; rfl)
    have hencoding : takeSetting? "encoding" (w ++ "?>".toList ++ z) = none :=
      takeSetting?_eq_none (by rw [hend hw]; rfl)
    rw [readEnding?, takeEncoding, halone, hencoding]
    dsimp only
    rw [hend hw, expect?_append]
    exact ⟨rfl, rfl⟩
  | @standalone v s w alone hs hv hw =>
    obtain ⟨x, hx⟩ := hs.exists_skipSpace (by decide) (w ++ "?>".toList ++ z)
    have hencoding : takeSetting? "encoding" (s ++ (w ++ "?>".toList ++ z)) = none :=
      takeSetting?_eq_none (by rw [hx]; rfl)
    rw [List.append_assoc, readEnding?, takeEncoding, takeSetting?_append (by decide) hs,
      hencoding]
    dsimp only
    rw [hend hw, expect?_append, hv]
    exact ⟨rfl, rfl⟩

theorem exists_of_readEnding? {cs rest : List Char} {alone : Option Bool}
    (h : readEnding? cs = some (alone, rest)) : ∃ e, SpellsEnding alone e ∧ cs = e ++ rest := by
  have hend : ∀ {r rest : List Char}, expect? "?>" (skipSpace r) = some rest →
      ∃ w, IsSpace w ∧ r = w ++ "?>".toList ++ rest := by
    intro r rest hr
    obtain ⟨w, hw, hskip⟩ := exists_space_append r
    refine ⟨w, hw, ?_⟩
    rw [eq_append_of_expect? hr] at hskip
    rw [hskip, List.append_assoc]
  rw [readEnding?] at h
  split at h
  · next v r hread =>
    obtain ⟨rest', hr, htruth⟩ := Option.bind_eq_some_iff.1 h
    obtain ⟨b, hv, hpair⟩ := Option.map_eq_some_iff.1 htruth
    obtain ⟨rfl, rfl⟩ := Prod.mk.inj hpair
    obtain ⟨s, hs, rfl⟩ := exists_spellsSetting_of_takeSetting? hread
    obtain ⟨w, hw, rfl⟩ := hend hr
    exact ⟨_, .standalone hs hv hw, (List.append_assoc ..).symm⟩
  · obtain ⟨rest', hr, hpair⟩ := Option.map_eq_some_iff.1 h
    obtain ⟨rfl, rfl⟩ := Prod.mk.inj hpair
    obtain ⟨w, hw, rfl⟩ := hend hr
    exact ⟨_, .plain hw, rfl⟩

theorem exists_of_takeEncoding {cs r : List Char} {encoding : Option (List Char)}
    (h : takeEncoding cs = (encoding, r)) (hall : encoding.all isEncodingName = true) :
    ∃ u, SpellsEncoding encoding u ∧ cs = u ++ r := by
  rw [takeEncoding] at h
  split at h
  · next n r' hs =>
    obtain ⟨rfl, rfl⟩ := Prod.mk.inj h
    obtain ⟨u, hu, rfl⟩ := exists_spellsSetting_of_takeSetting? hs
    exact ⟨u, .named hu hall, rfl⟩
  · obtain ⟨rfl, rfl⟩ := Prod.mk.inj h
    exact ⟨[], .absent, rfl⟩

/-- A head is read whatever follows it, unless an encoding is set there. -/
theorem readHead?_append {h : Head} {p : List Char} (hp : SpellsHead h p) {z : List Char}
    (hz : h.encoding = none → takeEncoding z = (none, z)) : readHead? (p ++ z) = some (h, z) := by
  cases hp with
  | @intro v s u encoding hs hv hu =>
    have happ : "<?xml".toList ++ (s ++ u) ++ z = "<?xml".toList ++ (s ++ (u ++ z)) := by simp
    have hencoding : takeEncoding (u ++ z) = (encoding, z) ∧
        encoding.all isEncodingName = true := by
      cases hu with
      | absent => exact ⟨hz rfl, rfl⟩
      | named hu hn =>
        rw [takeEncoding, takeSetting?_append (by decide) hu]
        exact ⟨rfl, hn⟩
    rw [happ, readHead?, expect?_append, Option.bind_some, takeSetting?_append (by decide) hs,
      Option.bind_some]
    dsimp only
    rw [hencoding.1, hv, hencoding.2]
    rfl

theorem exists_of_readHead? {cs r : List Char} {h : Head} (hread : readHead? cs = some (h, r)) :
    ∃ p, SpellsHead h p ∧ cs = p ++ r := by
  rw [readHead?] at hread
  obtain ⟨⟨v, r'⟩, hfront, hencoding⟩ := Option.bind_eq_some_iff.1 hread
  obtain ⟨cs', hexpect, hversion⟩ := Option.bind_eq_some_iff.1 hfront
  obtain rfl := eq_append_of_expect? hexpect
  obtain ⟨s, hs, rfl⟩ := exists_spellsSetting_of_takeSetting? hversion
  dsimp only at hencoding
  split at hencoding
  · next hchecks =>
    obtain ⟨hv, hall⟩ := Bool.and_eq_true_iff.1 hchecks
    obtain ⟨rfl, rfl⟩ := Prod.mk.inj (Option.some.inj hencoding)
    obtain ⟨u, hu, hr⟩ := exists_of_takeEncoding (r := (takeEncoding r').2) rfl hall
    refine ⟨_, .intro hs hv hu, ?_⟩
    rw [List.append_assoc, List.append_assoc, ← hr]
  · exact absurd hencoding (by simp)

theorem SpellsHead.opensDeclaration {h : Head} {p : List Char} (hp : SpellsHead h p)
    (z : List Char) : opensDeclaration (p ++ z) = true := by
  cases hp with
  | @intro v s u encoding hs hv hu =>
    cases hs with
    | intro hb hne _ _ _ =>
      rw [Markup.opensDeclaration, List.append_assoc, expect?_append, Option.bind_some,
        List.append_assoc, List.append_assoc, List.append_assoc,
        needSpace?_append hb hne (stops_item (by decide) _)]
      rfl

/-! ## declarations -/

/-- A declaration is read whatever follows it. -/
theorem readDeclaration?_append {d : Declaration} {p : List Char} (h : SpellsDeclaration d p)
    (z : List Char) : readDeclaration? (p ++ z) = some (some d, z) := by
  cases h with
  | intro hp he =>
    obtain ⟨hending, hnone⟩ := readEnding?_append he z
    rw [List.append_assoc, readDeclaration?, if_pos (hp.opensDeclaration _),
      readHead?_append hp fun _ => hnone, Option.bind_some]
    dsimp only
    rw [hending]
    rfl

/-- What is read as a declaration spells it. -/
theorem exists_of_readDeclaration? {cs rest : List Char} {d : Declaration}
    (h : readDeclaration? cs = some (some d, rest)) :
    ∃ p, SpellsDeclaration d p ∧ cs = p ++ rest := by
  rw [readDeclaration?] at h
  split at h
  · obtain ⟨⟨h', r⟩, hhead, hbehind⟩ := Option.bind_eq_some_iff.1 h
    obtain ⟨⟨alone, rest'⟩, hending, hpair⟩ := Option.map_eq_some_iff.1 hbehind
    obtain ⟨hd, rfl⟩ := Prod.mk.inj hpair
    obtain rfl := Option.some.inj hd
    obtain ⟨p, hp, rfl⟩ := exists_of_readHead? hhead
    obtain ⟨e, he, rfl⟩ := exists_of_readEnding? hending
    exact ⟨p ++ e, .intro hp he, (List.append_assoc ..).symm⟩
  · exact absurd h (by simp)

/-- **A declaration is read where one is spelled**, and what follows it doesn't matter. -/
theorem readDeclaration?_eq_some_iff {cs rest : List Char} {d : Declaration} :
    readDeclaration? cs = some (some d, rest) ↔ ∃ p, SpellsDeclaration d p ∧ cs = p ++ rest := by
  refine ⟨exists_of_readDeclaration?, ?_⟩
  rintro ⟨p, hp, rfl⟩
  exact readDeclaration?_append hp rest

/-! ## the characters of declarations -/

def IsAscii (cs : List Char) : Prop := ∀ c ∈ cs, c.toNat < 0x80

instance (cs : List Char) : Decidable (IsAscii cs) :=
  decidable_of_iff (cs.all (decide <| ·.toNat < 0x80) = true) (by simp [IsAscii])

theorem isAscii_append {cs ds : List Char} : IsAscii (cs ++ ds) ↔ IsAscii cs ∧ IsAscii ds :=
  List.forall_mem_append

theorem IsSpace.ascii {u : List Char} (h : IsSpace u) : IsAscii u := by
  intro c hc
  have hspace := h c hc
  simp only [isMarkupBlank, Bool.or_eq_true, beq_iff_eq] at hspace
  rcases hspace with ((rfl | rfl) | rfl) | rfl <;> decide

theorem SpellsSetting.ascii {name : String} {v s : List Char} (hname : IsAscii name.toList)
    (hv : IsAscii v) (h : SpellsSetting name v s) : IsAscii s := by
  cases h with
  | @intro b u w l hb hne hu hw hl =>
    have hl' : IsAscii l := by
      cases hl with
      | @intro q _ hq _ _ =>
        have hquote : q.toNat < 0x80 := by rcases hq with rfl | rfl <;> decide
        exact List.forall_mem_cons.2 ⟨hquote, isAscii_append.2
          ⟨hv, List.forall_mem_singleton.2 hquote⟩⟩
    have hassigned : IsAscii ('=' :: (w ++ l)) :=
      List.forall_mem_cons.2 ⟨by decide, isAscii_append.2 ⟨hw.ascii, hl'⟩⟩
    exact isAscii_append.2 ⟨hb.ascii, isAscii_append.2 ⟨hname, isAscii_append.2
      ⟨hu.ascii, hassigned⟩⟩⟩

theorem toNat_lt_of_isAlphanum {c : Char} (h : c.isAlphanum = true) : c.toNat < 0x80 := by
  have hranges := toNat_of_isAlphanum h
  omega

theorem ascii_of_isVersion {v : List Char} (h : isVersion v = true) : IsAscii v := by
  rw [isVersion.eq_def] at h
  split at h
  · next digits =>
    have hdigits : IsAscii digits := by
      intro c hc
      have hdigit := List.all_eq_true.1 h c hc
      exact toNat_lt_of_isAlphanum (by rw [Char.isAlphanum, hdigit, Bool.or_true])
    exact List.forall_mem_cons.2 ⟨by decide, List.forall_mem_cons.2 ⟨by decide, hdigits⟩⟩
  · exact absurd h (by simp)

theorem ascii_of_isEncodingName {n : List Char} (h : isEncodingName n = true) : IsAscii n := by
  cases n with
  | nil => exact fun c hc => absurd hc (by simp)
  | cons c cs =>
    rw [isEncodingName, Bool.and_eq_true, List.all_eq_true] at h
    refine List.forall_mem_cons.2 ⟨?_, fun d hd => ?_⟩
    · exact toNat_lt_of_isAlphanum (by rw [Char.isAlphanum, h.1, Bool.true_or])
    · have hd' := h.2 d hd
      simp only [Bool.or_eq_true, beq_iff_eq] at hd'
      rcases hd' with ((hd' | rfl) | rfl) | rfl
      · exact toNat_lt_of_isAlphanum hd'
      · decide
      · decide
      · decide

theorem ascii_of_truth? {v : List Char} {alone : Bool} (h : truth? v = some alone) :
    IsAscii v := by
  rw [truth?.eq_def] at h
  split at h
  · decide
  · decide
  · exact absurd h (by simp)

theorem SpellsEnding.ascii {alone : Option Bool} {e : List Char} (h : SpellsEnding alone e) :
    IsAscii e := by
  have hend : IsAscii "?>".toList := by decide
  cases h with
  | plain hw => exact isAscii_append.2 ⟨hw.ascii, hend⟩
  | standalone hs hv hw =>
    exact isAscii_append.2 ⟨hs.ascii (by decide) (ascii_of_truth? hv),
      isAscii_append.2 ⟨hw.ascii, hend⟩⟩

theorem SpellsEncoding.ascii {encoding : Option (List Char)} {u : List Char}
    (h : SpellsEncoding encoding u) : IsAscii u := by
  cases h with
  | absent => exact fun c hc => absurd hc (by simp)
  | named hu hn => exact hu.ascii (by decide) (ascii_of_isEncodingName hn)

theorem SpellsHead.ascii {h : Head} {p : List Char} (hp : SpellsHead h p) : IsAscii p := by
  cases hp with
  | intro hs hv hu =>
    exact isAscii_append.2 ⟨by decide, isAscii_append.2
      ⟨hs.ascii (by decide) (ascii_of_isVersion hv), hu.ascii⟩⟩

/-- Declarations consist of ASCII characters. -/
theorem SpellsDeclaration.ascii {d : Declaration} {p : List Char} (h : SpellsDeclaration d p) :
    IsAscii p := by
  cases h with
  | intro hp he => exact isAscii_append.2 ⟨hp.ascii, he.ascii⟩

/-! ## texts that declare an encoding -/

/-- A text consists of a head without encoding, of the setting of one, and of what is behind it. -/
structure SetsEncoding (name : String) (head setting behind t : List Char) : Prop where
  text : t = head ++ (setting ++ behind)
  head : ∃ version, SpellsHead ⟨version, none⟩ head
  setting : SpellsEncoding (some name.toList) setting

/-- The setting and the head make up a head with an encoding. -/
theorem SpellsHead.append {version name : String} {head setting : List Char}
    (hp : SpellsHead ⟨version, none⟩ head) (hu : SpellsEncoding (some name.toList) setting) :
    SpellsHead ⟨version, some name⟩ (head ++ setting) := by
  generalize hh : (⟨version, none⟩ : Head) = h at hp
  cases hp with
  | @intro v s u encoding hs hv hnone =>
    cases hnone with
    | named _ _ => exact absurd (congrArg Head.encoding hh) (by simp)
    | absent =>
      obtain rfl : version = String.ofList v := congrArg Head.version hh
      have hhead := SpellsHead.intro hs hv hu
      rw [Option.map_some, String.ofList_toList] at hhead
      rwa [List.append_nil, List.append_assoc]

section
variable {t rest : List Char} {d : Declaration} {name : String}
  (hd : readDeclaration? t = some (some d, rest)) (hname : d.encoding = some name)
include hd hname

theorem exists_setsEncoding :
    ∃ head setting behind, SetsEncoding name head setting behind t := by
  obtain ⟨p, hp, rfl⟩ := readDeclaration?_eq_some_iff.1 hd
  cases hp with
  | @intro h alone p e hp he =>
    cases hp with
    | @intro v s u encoding hs hv hu =>
      cases hu with
      | absent => exact absurd hname (by simp)
      | @named n u hu hn =>
        obtain rfl : String.ofList n = name := by simpa using hname
        refine ⟨"<?xml".toList ++ (s ++ []), u, e ++ rest, by simp, ⟨_, .intro hs hv .absent⟩, ?_⟩
        rw [String.toList_ofList]
        exact .named hu hn

/-- What is behind the setting of the encoding is the end of the declaration and the document. -/
theorem SetsEncoding.exists_ending {head setting behind : List Char}
    (h : SetsEncoding name head setting behind t) :
    SpellsHead ⟨d.version, none⟩ head ∧ SpellsHead ⟨d.version, some name⟩ (head ++ setting) ∧
      ∃ e, SpellsEnding d.standalone e ∧ behind = e ++ rest := by
  obtain ⟨p, hp, htext⟩ := readDeclaration?_eq_some_iff.1 hd
  obtain ⟨version, hhead⟩ := h.head
  have hboth := hhead.append h.setting
  cases hp with
  | @intro h' alone p e hp he =>
    -- the head of the text is read in two ways
    have hread := readHead?_append hboth (z := behind) fun hnone => absurd hnone (by simp)
    have hread' := readHead?_append hp (z := e ++ rest) fun hnone =>
      absurd (hname.symm.trans hnone) (by simp)
    rw [List.append_assoc, ← h.text, htext, List.append_assoc, hread', Option.some.injEq,
      Prod.mk.injEq] at hread
    obtain ⟨rfl, rfl⟩ := hread
    exact ⟨hhead, hboth, e, he, rfl⟩

end

end XmlPaths.Markup

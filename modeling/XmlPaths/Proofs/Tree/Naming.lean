import XmlPaths.Build.Creation
import XmlPaths.Proofs.Selection.Agreement

/-!
# Names in namespaces

A name is put together as a universal form and taken apart again.  That is right for references
without a closing brace, which can't begin with an opening one.

* `Name.inSpace?_of_isUriReference`   the name in the namespace of a reference;
* `isNcName_of_not_mem`          names in expressions are names of markup, but for one character;
* `isNcName_of_isName`           so names in plain expressions are.
-/

namespace XmlPaths

/-! ## characters of names -/

theorem isMarkupChar_of_isNcNameChar {c : Char} (h : isNcNameChar c = true) :
    isMarkupChar c = true := by
  have hrange : 0x20 ≤ c.toNat ∧ c.toNat ≠ 0xfffe ∧ c.toNat ≠ 0xffff := by
    simp only [isNcNameChar, isNcNameStart, ncNameStartRanges, ncNameOnlyRanges, Ranges.covers,
      List.any_cons, List.any_nil, Bool.or_eq_true, Bool.and_eq_true, decide_eq_true_eq,
      Bool.or_false] at h
    omega
  obtain ⟨hlow, hfffe, hffff⟩ := hrange
  have hne : ∀ d : Char, c.toNat ≠ d.toNat → (c != d) = true := by
    intro d hd
    rw [bne_iff_ne]
    rintro rfl
    exact hd rfl
  rw [isMarkupChar, hne '\ufffe' hfffe, hne '\uffff' hffff]
  simp [hlow]

theorem isMarkupText_of_isNcName {s : String} (h : isNcName s = true) : isMarkupText s = true := by
  rw [isNcName, Bool.and_eq_true] at h
  have hchars := h.1
  rw [isMarkupText, List.all_eq_true]
  cases hs : s.toList with
  | nil => simp
  | cons c cs =>
    rw [hs, isNcNameChars, Bool.and_eq_true, List.all_eq_true] at hchars
    intro d hd
    apply isMarkupChar_of_isNcNameChar
    rcases List.mem_cons.1 hd with rfl | hd
    · rw [isNcNameChar, hchars.1, Bool.true_or]
    · exact hchars.2 d hd

theorem ne_empty_of_isNcName {s : String} (h : isNcName s = true) : s.toList ≠ [] := by
  intro hs
  rw [isNcName, hs] at h
  exact absurd h (by decide)

/-- All names of expressions are names of markup but those with an ogham space mark. -/
theorem isNcName_of_not_mem {n : List Char} (h : Alphabet.full.IsName n) (hog : oghamSpace ∉ n) :
    isNcName (String.ofList n) = true := by
  obtain ⟨c, cs, rfl, hc, hcs⟩ := h.exists_cons
  rw [isNcName, String.toList_ofList, isNcNameChars, List.contains_eq_mem, decide_eq_false hog,
    Bool.not_false, Bool.and_true, Bool.and_eq_true, List.all_eq_true]
  exact ⟨hc, fun d hd => isNcNameChar_of_isNameChar (hcs d hd)⟩

theorem isNcName_of_isName {n : List Char}
    (h : (Alphabet.full.restrict isPlain isMarkupChar).IsName n) :
    isNcName (String.ofList n) = true := by
  refine isNcName_of_not_mem (common_plain.isName h) fun hmem => ?_
  obtain ⟨c, cs, rfl, hc, hcs⟩ := h.exists_cons
  have hplain : isPlain oghamSpace = true := by
    rcases List.mem_cons.1 hmem with hc' | hmem
    · rw [hc']
      exact (Bool.and_eq_true_iff.1 hc).2
    · exact (Bool.and_eq_true_iff.1 (hcs _ hmem)).2
  exact absurd hplain (by decide)

/-! ## universal forms -/

/-- The last element that has a property divides a list in one way only. -/
theorem append_cons_inj_of_last {α : Type} {p : α → Prop} {before before' after after' : List α}
    {a a' : α} (h : before ++ a :: after = before' ++ a' :: after') (ha : p a) (ha' : p a')
    (hafter : ∀ b ∈ after, ¬ p b) (hafter' : ∀ b ∈ after', ¬ p b) :
    before = before' ∧ a = a' := by
  rcases List.append_eq_append_iff.1 h with ⟨u, hbefore, hrest⟩ | ⟨u, hbefore, hrest⟩
  · cases u with
    | nil => exact ⟨by rw [hbefore, List.append_nil], (List.cons.inj hrest).1⟩
    | cons b u => exact absurd ha' (hafter a' ((List.cons.inj hrest).2 ▸ by simp))
  · cases u with
    | nil => exact ⟨by rw [hbefore, List.append_nil], (List.cons.inj hrest).1.symm⟩
    | cons b u => exact absurd ha (hafter' a ((List.cons.inj hrest).2 ▸ by simp))

theorem head_ne_brace_of_isUriReference {uri : String} (h : Uri.isUriReference uri = true)
    {cs : List Char} : uri.toList ≠ '\x7b' :: cs := by
  intro hcs
  rw [Uri.isUriReference, Bool.and_eq_true, hcs] at h
  have hmain : ∀ r, Uri.isMain ('\x7b' :: r) = false := by
    intro r
    have hdrop : ('\x7b' :: r).dropWhile
        (fun c => c.isAlphanum || c == '+' || c == '-' || c == '.') = '\x7b' :: r := rfl
    have hhier : Uri.isHierarchy ('\x7b' :: r) = false := rfl
    rw [Uri.isMain, hdrop, hhier]
    simp
  exact absurd h.1 (by
    rw [List.takeWhile_cons_of_pos (by decide), hmain]
    simp)

namespace Name

theorem ofUniversal?_universal {uri l : String} (huri : uri.toList ≠ [])
    (hbrace : '\x7d' ∉ uri.toList) (huritext : isMarkupText uri = true) (hl : isNcName l = true) :
    ofUniversal? (universal ⟨some uri, l⟩) = some ⟨some uri, l⟩ := by
  have hinside : ∀ c ∈ uri.toList, (c != '\x7d') = true := by
    intro c hc
    rw [bne_iff_ne]
    rintro rfl
    exact hbrace hc
  have huniversal : (universal ⟨some uri, l⟩).toList =
      '\x7b' :: (uri.toList ++ '\x7d' :: l.toList) := by
    rw [universal, String.toList_ofList]
    rfl
  have htext : isMarkupText (universal ⟨some uri, l⟩) = true := by
    have hltext := isMarkupText_of_isNcName hl
    rw [isMarkupText, List.all_eq_true] at huritext hltext ⊢
    intro c hc
    rw [huniversal, List.mem_cons, List.mem_append, List.mem_cons] at hc
    rcases hc with rfl | hc | rfl | hc
    · decide
    · exact huritext c hc
    · decide
    · exact hltext c hc
  have hdrop : (uri.toList ++ '\x7d' :: l.toList).dropWhile (· != '\x7d') = '\x7d' :: l.toList := by
    rw [List.dropWhile_append_of_pos hinside]
    rfl
  have htake : (uri.toList ++ '\x7d' :: l.toList).takeWhile (· != '\x7d') = uri.toList := by
    rw [List.takeWhile_append_of_pos hinside]
    exact List.append_nil _
  obtain ⟨c, cs, hlocal⟩ := List.exists_cons_of_ne_nil (ne_empty_of_isNcName hl)
  have hempty : uri.toList.isEmpty = false := by
    rw [List.isEmpty_eq_false_iff]
    exact huri
  rw [ofUniversal?, htext, if_neg (by simp), huniversal]
  simp only [hdrop, htake]
  rw [hlocal]
  dsimp only
  rw [← hlocal, hempty, String.ofList_toList, String.ofList_toList]
  rfl

/-- the name in the namespace of a reference that the universal form can hold -/
theorem inSpace?_of_isUriReference {uri l : String} (huri : uri ≠ "")
    (href : Uri.isUriReference uri = true) (hbrace : '\x7d' ∉ uri.toList)
    (htext : isMarkupText uri = true) (hl : isNcName l = true) :
    inSpace? uri l = some ⟨some uri, l⟩ := by
  have hne : uri.toList ≠ [] := fun h => huri (String.toList_eq_nil_iff.1 h)
  rw [inSpace?, htext, hl, Bool.and_true, if_pos rfl]
  split
  · next cs hcs => exact absurd hcs (head_ne_brace_of_isUriReference href)
  · exact ofUniversal?_universal hne hbrace htext hl

end Name

end XmlPaths
